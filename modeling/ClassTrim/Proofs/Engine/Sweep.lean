import ClassTrim.Proofs.DeadStore.Residue
import ClassTrim.Proofs.Engine.Steady

/-!
# A sweep for dead stores

A sweep visits the classes in some order and in each class the methods that have no branches and
are not listed as failed. What it makes of one method depends on the method alone: a treatment says
which method is left, what is recorded, and whether the method changed or failed. A sweep comes to
its end exactly if no method that it visits has a fault that ends it, and then it is the sum of its
treatments.

The methods of a class are selected before the first of them is visited. What fails in one class
can keep a sweep from a method of a later class only if both have one reference. Where no two
classes share a reference, the selection could be made for the whole group at once, and the order
in which classes are visited shows in the order of the events only.
-/

namespace ClassTrim.Engine

variable {σ : Type} {settings : Settings} {owner : String} {method : MethodDecl}
  {state last : RunState σ} {changed : Bool}

/-- What a visit makes of one method. -/
structure Treatment where
  method : MethodDecl
  events : EventLog
  changed : Bool
  failed : Bool

/-- The treatment of a method that is visited. -/
def treat (settings : Settings) (owner : String) (method : MethodDecl) : Treatment :=
  match DeadStore.eliminate owner method settings.maxRemovals with
  | .error fault =>
    ⟨method, [Pipeline.failureWarning (Pass.deadStores : Pass Unit) (method.reference owner) fault],
      false, true⟩
  | .ok none => ⟨method, [], false, false⟩
  | .ok (some (body, reports)) =>
    ⟨{ method with body := some body },
      storeEvents settings (method.reference owner) body reports, true, false⟩

/-- The treatment of a method that is visited if it is selected. -/
def visit (settings : Settings) (owner : String) (entry : MethodDecl × Bool) : Treatment :=
  if entry.2 then treat settings owner entry.1 else ⟨entry.1, [], false, false⟩

/-- The treatment of a method in a sweep that begins with some methods listed as failed. -/
def attend (settings : Settings) (failed : List MethodRef) (owner : String) (method : MethodDecl) :
    Treatment :=
  visit settings owner
    (method, !decide (method.reference owner ∈ failed) && method.isStraight)

/-- What treatments of methods add to a state. -/
structure Attended (treatments : List (MethodRef × Treatment)) (state last : RunState σ) :
    Prop where
  events : last.events = state.events ++ treatments.flatMap (·.2.events)
  failed : ∀ reference, reference ∈ last.failed ↔ reference ∈ state.failed ∨
    ∃ treatment, (reference, treatment) ∈ treatments ∧ treatment.failed = true
  modified : ∀ reference, reference ∈ last.modified ↔ reference ∈ state.modified ∨
    ∃ treatment, (reference, treatment) ∈ treatments ∧ treatment.changed = true
  memory : last.memory = state.memory

namespace Attended

variable {first second : List (MethodRef × Treatment)} {middle : RunState σ}

/-- Without treatments nothing happens. -/
theorem nothing (state : RunState σ) : Attended [] state state :=
  ⟨by simp, by simp, by simp, rfl⟩

/-- Treatments one after the other add up. -/
theorem trans (before : Attended first state middle) (behind : Attended second middle last) :
    Attended (first ++ second) state last where
  events := by rw [behind.events, before.events, List.flatMap_append, List.append_assoc]
  failed := by
    intro reference
    rw [behind.failed, before.failed]
    simp only [List.mem_append, or_and_right, exists_or, or_assoc]
  modified := by
    intro reference
    rw [behind.modified, before.modified]
    simp only [List.mem_append, or_and_right, exists_or, or_assoc]
  memory := behind.memory.trans before.memory

/-- One treatment, and then others. -/
theorem cons {entry : MethodRef × Treatment} (before : Attended [entry] state middle)
    (behind : Attended second middle last) : Attended (entry :: second) state last :=
  before.trans behind

/-- Who is listed stays listed. -/
theorem failed_subset (attended : Attended first state last) : state.failed ⊆ last.failed :=
  fun reference member => (attended.failed reference).mpr (.inl member)

/-- A treatment that does nothing leaves the state as it is. -/
theorem silent (reference : MethodRef) (method : MethodDecl) (state : RunState σ) :
    Attended [(reference, ⟨method, [], false, false⟩)] state state :=
  ⟨by simp, by simp, by simp, rfl⟩

end Attended

/-- A fault of the method, if it has one, does not end a visit. -/
def Bearable (settings : Settings) (owner : String) (method : MethodDecl) : Prop :=
  ∀ fault, DeadStore.eliminate owner method settings.maxRemovals = .error fault →
    fault.isFatal = false ∧ settings.continueOnError = true

/-- The sweep over some methods of a class that comes to its end meets no fault that would end it,
and is the sum of the treatments. -/
theorem attended_visitMethods {entries : List (MethodDecl × Bool)}
    (visited : (Pipeline.visitMethods settings Pass.deadStores owner entries state).verdict =
      .ok changed) :
    (∀ entry ∈ entries, entry.2 = true → Bearable settings owner entry.1) ∧
      (Pipeline.visitMethods settings Pass.deadStores owner entries state).subject =
        entries.map (fun entry => (visit settings owner entry).method) ∧
      changed = entries.any (fun entry => (visit settings owner entry).changed) ∧
      Attended (entries.map fun entry =>
          (entry.1.reference owner, visit settings owner entry)) state
        (Pipeline.visitMethods settings Pass.deadStores owner entries state).state := by
  induction entries generalizing state changed with
  | nil =>
    cases visited
    exact ⟨by simp, rfl, rfl, .nothing state⟩
  | cons entry rest ih =>
    obtain ⟨method, selected⟩ := entry
    cases selected with
    | false =>
      simp only [Pipeline.visitMethods] at visited ⊢
      obtain ⟨bearable, subject, verdict, attended⟩ := ih visited
      refine ⟨List.forall_mem_cons.mpr ⟨by simp, bearable⟩, by rw [subject]; rfl,
        by rw [verdict]; rfl, ?_⟩
      exact (Attended.silent (method.reference owner) method state).cons attended
    | true =>
      rcases onMethod_deadStores_cases settings owner method state with
        ⟨fault, failed, outcome⟩ | ⟨idle, outcome⟩ | ⟨body, reports, eliminated, outcome⟩
      · have treated : visit settings owner (method, true) = ⟨method,
            [Pipeline.failureWarning (Pass.deadStores : Pass Unit) (method.reference owner) fault],
            false, true⟩ := by
          simp only [visit, treat, failed, if_true]
        simp only [Pipeline.visitMethods, outcome] at visited ⊢
        split at visited
        · cases visited
        · next goesOn =>
          rw [if_neg goesOn]
          obtain ⟨bearable, subject, verdict, attended⟩ := ih visited
          have here : Bearable settings owner method := by
            intro other again
            cases failed.symm.trans again
            simpa using goesOn
          refine ⟨List.forall_mem_cons.mpr ⟨fun _ => here, bearable⟩,
            by rw [subject, List.map_cons, treated],
            by rw [verdict, List.any_cons, treated, Bool.false_or], ?_⟩
          rw [List.map_cons, treated]
          refine Attended.cons ⟨?_, ?_, ?_, ?_⟩ attended
          · rw [List.flatMap_singleton]
            rfl
          · simp [RunState.record, RunState.markFailed, or_comm]
          · simp [RunState.record, RunState.markFailed]
          · rfl
      · have treated : visit settings owner (method, true) = ⟨method, [], false, false⟩ := by
          simp only [visit, treat, idle, if_true]
        simp only [Pipeline.visitMethods, outcome, Option.getD_none] at visited ⊢
        obtain ⟨later, visitedLater, rfl⟩ := exists_of_map_eq_ok visited
        obtain ⟨bearable, subject, verdict, attended⟩ := ih visitedLater
        refine ⟨List.forall_mem_cons.mpr ⟨fun _ => by simp [Bearable, idle], bearable⟩,
          by rw [subject, List.map_cons, treated],
          by rw [verdict, List.any_cons, treated]; rfl, ?_⟩
        rw [List.map_cons, treated]
        exact (Attended.silent _ method state).cons attended
      · have treated : visit settings owner (method, true) =
            ⟨{ method with body := some body },
              storeEvents settings (method.reference owner) body reports, true, false⟩ := by
          simp only [visit, treat, eliminated, if_true]
        simp only [Pipeline.visitMethods, outcome, Option.getD_some] at visited ⊢
        obtain ⟨later, visitedLater, rfl⟩ := exists_of_map_eq_ok visited
        obtain ⟨bearable, subject, verdict, attended⟩ := ih visitedLater
        refine ⟨List.forall_mem_cons.mpr ⟨fun _ => by simp [Bearable, eliminated], bearable⟩,
          by rw [subject, List.map_cons, treated],
          by rw [verdict, List.any_cons, treated]; rfl, ?_⟩
        rw [List.map_cons, treated]
        refine Attended.cons ⟨?_, ?_, ?_, ?_⟩ attended
        · rw [List.flatMap_singleton]
          rfl
        · simp [RunState.record, RunState.markModified]
        · simp [RunState.record, RunState.markModified, or_comm]
        · rfl

/-- Where no fault would end it, a sweep over methods comes to its end. -/
theorem exists_visitMethods {entries : List (MethodDecl × Bool)}
    (bearable : ∀ entry ∈ entries, entry.2 = true → Bearable settings owner entry.1)
    (state : RunState σ) :
    ∃ changed, (Pipeline.visitMethods settings Pass.deadStores owner entries state).verdict =
      .ok changed := by
  induction entries generalizing state with
  | nil => exact ⟨false, rfl⟩
  | cons entry rest ih =>
    obtain ⟨method, selected⟩ := entry
    have later := ih fun other member => bearable other (List.mem_cons_of_mem _ member)
    cases selected with
    | false => exact later state
    | true =>
      rcases onMethod_deadStores_cases settings owner method state with
        ⟨fault, failed, outcome⟩ | ⟨idle, outcome⟩ | ⟨body, reports, eliminated, outcome⟩
      · obtain ⟨usual, tolerated⟩ := bearable _ List.mem_cons_self rfl fault failed
        have goesOn : ¬(fault.isFatal || !settings.continueOnError) = true := by
          simp [usual, tolerated]
        simp only [Pipeline.visitMethods, outcome, if_neg goesOn]
        exact later _
      · obtain ⟨changed, verdict⟩ := later state
        simp only [Pipeline.visitMethods, outcome, verdict]
        exact ⟨_, rfl⟩
      · obtain ⟨changed, verdict⟩ := later ((state.markModified (method.reference owner)).record
          (storeEvents settings (method.reference owner) body reports))
        simp only [Pipeline.visitMethods, outcome, verdict]
        exact ⟨_, rfl⟩

/-- The treatments of the methods of a class, in order. -/
def attendClass (settings : Settings) (failed : List MethodRef) (decl : ClassDecl) :
    List (MethodRef × Treatment) :=
  decl.methods.map fun method =>
    (method.reference decl.name, attend settings failed decl.name method)

/-- The class that a sweep leaves. -/
def sweepClass (settings : Settings) (failed : List MethodRef) (decl : ClassDecl) : ClassDecl :=
  { decl with methods := (attendClass settings failed decl).map (·.2.method) }

/-- No method that is visited in the class ends the visit. -/
def Calm (settings : Settings) (failed : List MethodRef) (decl : ClassDecl) : Prop :=
  ∀ method ∈ decl.methods, method.reference decl.name ∉ failed → method.isStraight = true →
    Bearable settings decl.name method

/-- A visit of a class that comes to its end was a calm one, and is the sum of the treatments. -/
theorem attended_visitClass {decl : ClassDecl}
    (visited : (Pipeline.visitClass settings Pass.deadStores decl state).verdict = .ok changed) :
    Calm settings state.failed decl ∧
      (Pipeline.visitClass settings Pass.deadStores decl state).subject =
        sweepClass settings state.failed decl ∧
      changed = (attendClass settings state.failed decl).any (·.2.changed) ∧
      Attended (attendClass settings state.failed decl) state
        (Pipeline.visitClass settings Pass.deadStores decl state).state := by
  obtain ⟨bearable, subject, verdict, attended⟩ := attended_visitMethods visited
  simp only [List.map_map, List.any_map] at subject verdict attended
  refine ⟨?_, ?_, ?_, attended⟩
  · intro method member unlisted straight
    refine bearable (method, true) (List.mem_map.mpr ⟨method, member, ?_⟩) rfl
    have accepted : (Pass.deadStores : Pass σ).accepts decl method = true := straight
    simp [RunState.isFailed, unlisted, accepted]
  · simp only [Pipeline.visitClass, subject, sweepClass, attendClass, List.map_map]
    rfl
  · rw [verdict, attendClass, List.any_map]
    rfl

/-- A calm class is swept to its end. -/
theorem visitClass_eq {decl : ClassDecl} (calm : Calm settings state.failed decl) :
    (Pipeline.visitClass settings Pass.deadStores decl state).subject =
        sweepClass settings state.failed decl ∧
      (Pipeline.visitClass settings Pass.deadStores decl state).verdict =
        .ok ((attendClass settings state.failed decl).any (·.2.changed)) ∧
      Attended (attendClass settings state.failed decl) state
        (Pipeline.visitClass settings Pass.deadStores decl state).state := by
  have bearable : ∀ entry ∈ decl.methods.map (fun method =>
      (method, !state.isFailed (method.reference decl.name) &&
        (Pass.deadStores : Pass σ).accepts decl method)),
      entry.2 = true → Bearable settings decl.name entry.1 := by
    intro entry member selected
    obtain ⟨method, inside, rfl⟩ := List.mem_map.mp member
    obtain ⟨unlisted, straight⟩ := Bool.and_eq_true_iff.mp selected
    exact calm method inside (by simpa [RunState.isFailed] using unlisted) straight
  obtain ⟨changed, visited⟩ := exists_visitMethods bearable state
  have opened : (Pipeline.visitClass settings Pass.deadStores decl state).verdict =
      .ok changed := visited
  obtain ⟨_, subject, rfl, attended⟩ := attended_visitClass opened
  exact ⟨subject, opened, attended⟩

/-- Visits of classes, one after the other, that come to their end. Each class is swept as the
state calls for in which it is met. -/
inductive Visits (settings : Settings) :
    List Nat → List ClassDecl → RunState σ → List ClassDecl → RunState σ → Bool → Prop
  | done (classes : List ClassDecl) (state : RunState σ) :
      Visits settings [] classes state classes state false
  | visit {position : Nat} {rest : List Nat} {classes last : List ClassDecl} {decl : ClassDecl}
      {state middle lastState : RunState σ} {later : Bool}
      (found : classes[position]? = some decl) (calm : Calm settings state.failed decl)
      (attended : Attended (attendClass settings state.failed decl) state middle)
      (visits : Visits settings rest (classes.set position (sweepClass settings state.failed decl))
        middle last lastState later) :
      Visits settings (position :: rest) classes state last lastState
        ((attendClass settings state.failed decl).any (·.2.changed) || later)

variable {positions : List Nat} {classes lastClasses : List ClassDecl}

/-- A sweep that comes to its end is made of such visits. -/
theorem visits_of_visitClasses (inside : ∀ position ∈ positions, position < classes.length)
    (visited : (Pipeline.visitClasses settings Pass.deadStores positions classes state).verdict =
      .ok changed) :
    Visits settings positions classes state
      (Pipeline.visitClasses settings Pass.deadStores positions classes state).subject
      (Pipeline.visitClasses settings Pass.deadStores positions classes state).state changed := by
  induction positions generalizing classes state changed with
  | nil =>
    cases visited
    exact .done _ _
  | cons position rest ih =>
    obtain ⟨bound, insideLater⟩ := List.forall_mem_cons.mp inside
    have found : classes[position]? = some classes[position] := List.getElem?_eq_getElem bound
    simp only [Pipeline.visitClasses, found] at visited ⊢
    split at visited
    · cases visited
    · next first opened =>
      obtain ⟨later, visitedLater, rfl⟩ := exists_of_map_eq_ok visited
      obtain ⟨calm, subject, rfl, attended⟩ := attended_visitClass opened
      rw [subject] at visitedLater ⊢
      exact .visit found calm attended
        (ih (by simpa only [List.length_set] using insideLater) visitedLater)

/-- So is one over a group, which comes to every class. -/
theorem visits_of_runPass {group : ClassGroup} {order : VisitOrder}
    (ran : (Pipeline.runPass settings Pass.deadStores order group state).verdict = .ok changed) :
    Visits settings (order.positions group.classes.length) group.classes state
      (Pipeline.runPass settings Pass.deadStores order group state).subject.classes
      (Pipeline.runPass settings Pass.deadStores order group state).state changed :=
  visits_of_visitClasses (fun _ => VisitOrder.mem_positions.mp) ran

/-- Who is listed stays listed. -/
theorem Visits.failed_subset
    (visits : Visits settings positions classes state lastClasses last changed) :
    state.failed ⊆ last.failed := by
  induction visits with
  | done => exact fun _ member => member
  | visit _ _ attended _ ih => exact fun _ member => ih (attended.failed_subset member)

/-- A treatment asks of the list of failures only whether the method is on it. -/
theorem attend_congr {failed others : List MethodRef}
    (same : method.reference owner ∈ failed ↔ method.reference owner ∈ others) :
    attend settings failed owner method = attend settings others owner method := by
  simp only [attend, same]

/-- So do the treatments of a class. -/
theorem attendClass_congr {failed others : List MethodRef} {decl : ClassDecl}
    (same : ∀ method ∈ decl.methods,
      (method.reference decl.name ∈ failed ↔ method.reference decl.name ∈ others)) :
    attendClass settings failed decl = attendClass settings others decl := by
  apply List.map_congr_left
  intro method member
  rw [attend_congr (same method member)]

/-- Whether a visit of a class is a calm one depends on its own methods. -/
theorem Calm.congr {failed others : List MethodRef} {decl : ClassDecl}
    (calm : Calm settings failed decl)
    (same : ∀ method ∈ decl.methods,
      (method.reference decl.name ∈ failed ↔ method.reference decl.name ∈ others)) :
    Calm settings others decl := by
  intro method member unlisted
  exact calm method member fun listed => unlisted ((same method member).mp listed)

/-- The references of the methods of a class. -/
def referencesOf (decl : ClassDecl) : List MethodRef :=
  decl.methods.map (·.reference decl.name)

/-- No two classes share a reference. -/
def Apart (classes : List ClassDecl) : Prop :=
  (classes.map referencesOf).Pairwise List.Disjoint

/-- Classes of different names share no reference. -/
theorem apart_of_names (distinct : (classes.map ClassDecl.name).Nodup) : Apart classes := by
  rw [Apart, List.pairwise_map]
  refine (List.pairwise_map.mp distinct).imp fun {decl other} differ reference here there => ?_
  obtain ⟨method, _, rfl⟩ := List.mem_map.mp here
  obtain ⟨twin, _, same⟩ := List.mem_map.mp there
  exact differ (congrArg MethodRef.owner same).symm

/-- Where no reference is declared twice, no two classes share one. -/
theorem apart_of_references {group : ClassGroup} (distinct : group.references.Nodup) :
    Apart group.classes := by
  have flat : group.references = (group.classes.map referencesOf).flatten := by
    simp only [ClassGroup.references, ClassGroup.declared, List.map_flatMap, List.map_map,
      ← List.flatMap_def]
    rfl
  rw [flat, List.nodup_flatten] at distinct
  exact distinct.2

/-- A treatment leaves the reference of a method as it is. -/
theorem reference_attend (failed : List MethodRef) (owner : String) (method : MethodDecl) :
    (attend settings failed owner method).method.reference owner = method.reference owner := by
  unfold attend visit
  split
  · unfold treat
    split <;> rfl
  · rfl

/-- A sweep leaves the references of a class as they are. -/
theorem referencesOf_sweepClass (failed : List MethodRef) (decl : ClassDecl) :
    referencesOf (sweepClass settings failed decl) = referencesOf decl := by
  simp only [referencesOf, sweepClass, attendClass, List.map_map]
  exact List.map_congr_left fun method _ => reference_attend failed decl.name method

/-- A sweep of one class leaves the classes apart. -/
theorem Apart.set {position : Nat} {decl : ClassDecl} (apart : Apart classes)
    (found : classes[position]? = some decl) (failed : List MethodRef) :
    Apart (classes.set position (sweepClass settings failed decl)) := by
  have same : (classes.set position (sweepClass settings failed decl)).map referencesOf =
      classes.map referencesOf := by
    apply List.ext_getElem?
    intro other
    rw [List.getElem?_map, List.getElem?_map, List.getElem?_set]
    split
    · next here =>
      subst here
      have bound := (List.getElem?_eq_some_iff.mp found).1
      rw [if_pos bound, found, Option.map_some, Option.map_some, referencesOf_sweepClass]
    · rfl
  rwa [Apart, same]

/-- What is listed on account of one class concerns no method of another. -/
theorem Apart.failed_iff {here there : Nat} {decl other : ClassDecl} (apart : Apart classes)
    (found : classes[here]? = some decl) (foundThere : classes[there]? = some other)
    (differ : here ≠ there)
    (attended : Attended (attendClass settings state.failed decl) state last) :
    ∀ method ∈ other.methods,
      (method.reference other.name ∈ last.failed ↔ method.reference other.name ∈ state.failed) := by
  intro method declares
  rw [attended.failed, or_iff_left]
  rintro ⟨treatment, listed, _⟩
  obtain ⟨twin, inside, same⟩ := List.mem_map.mp listed
  have inHere : method.reference other.name ∈ referencesOf decl :=
    List.mem_map.mpr ⟨twin, inside, (Prod.mk.inj same).1⟩
  have inThere : method.reference other.name ∈ referencesOf other :=
    List.mem_map_of_mem declares
  have boundHere := (List.getElem?_eq_some_iff.mp found).1
  have boundThere := (List.getElem?_eq_some_iff.mp foundThere).1
  rw [List.getElem?_eq_getElem boundHere, Option.some.injEq] at found
  rw [List.getElem?_eq_getElem boundThere, Option.some.injEq] at foundThere
  have disjoint := List.pairwise_iff_getElem.mp (List.pairwise_map.mp apart)
  rcases Nat.lt_or_gt_of_ne differ with before | behind
  · have never := disjoint here there boundHere boundThere before
    rw [found, foundThere] at never
    exact never inHere inThere
  · have never := disjoint there here boundThere boundHere behind
    rw [found, foundThere] at never
    exact never inThere inHere

/-- The classes at given positions. -/
def scheduled (positions : List Nat) (classes : List ClassDecl) : List ClassDecl :=
  positions.filterMap fun position => classes[position]?

/-- The classes at all positions are all classes. -/
theorem scheduled_perm (complete : positions.Perm (List.range classes.length)) :
    (scheduled positions classes).Perm classes := by
  have all : (List.range classes.length).map (fun position => classes[position]?) =
      classes.map some := by
    apply List.ext_getElem?
    intro position
    by_cases inside : position < classes.length
    · simp [inside]
    · simp [inside]
  have same : (List.range classes.length).filterMap (fun position => classes[position]?) =
      classes := by
    calc (List.range classes.length).filterMap (fun position => classes[position]?)
        = ((List.range classes.length).map fun position => classes[position]?).filterMap id := by
          rw [List.filterMap_map]; rfl
      _ = classes := by rw [all, List.filterMap_map]; exact List.filterMap_some
  have permuted := complete.filterMap fun position => classes[position]?
  rwa [same] at permuted

/-- A sweep over the classes at some positions. Each of them is swept as the first state calls
for, and the others stay as they are. -/
structure Swept (settings : Settings) (positions : List Nat) (classes : List ClassDecl)
    (state : RunState σ) (lastClasses : List ClassDecl) (last : RunState σ) (changed : Bool) :
    Prop where
  calm : ∀ decl ∈ scheduled positions classes, Calm settings state.failed decl
  subject : ∀ position, lastClasses[position]? =
    if position ∈ positions then classes[position]?.map (sweepClass settings state.failed)
    else classes[position]?
  verdict : changed =
    ((scheduled positions classes).flatMap (attendClass settings state.failed)).any (·.2.changed)
  attended : Attended ((scheduled positions classes).flatMap (attendClass settings state.failed))
    state last

/-- What one visit leaves behind calls for the same treatments of all other classes. -/
theorem Swept.cons {position : Nat} {rest : List Nat} {decl : ClassDecl} {middle : RunState σ}
    {later : Bool} (apart : Apart classes) (fresh : position ∉ rest)
    (found : classes[position]? = some decl) (calm : Calm settings state.failed decl)
    (attended : Attended (attendClass settings state.failed decl) state middle)
    (swept : Swept settings rest (classes.set position (sweepClass settings state.failed decl))
      middle lastClasses last later) :
    Swept settings (position :: rest) classes state lastClasses last
      ((attendClass settings state.failed decl).any (·.2.changed) || later) := by
  have elsewhere : ∀ other, other ≠ position →
      (classes.set position (sweepClass settings state.failed decl))[other]? = classes[other]? :=
    fun other differ => List.getElem?_set_ne (Ne.symm differ)
  have treatments : ∀ other, other ≠ position → ∀ twin, classes[other]? = some twin →
      attendClass settings middle.failed twin = attendClass settings state.failed twin :=
    fun other differ twin there =>
      attendClass_congr (apart.failed_iff found there differ.symm attended)
  have same : scheduled rest (classes.set position (sweepClass settings state.failed decl)) =
      scheduled rest classes :=
    List.filterMap_congr fun other member => elsewhere other (ne_of_mem_of_not_mem member fresh)
  have later : (scheduled rest classes).flatMap (attendClass settings middle.failed) =
      (scheduled rest classes).flatMap (attendClass settings state.failed) := by
    apply List.flatMap_congr
    intro twin member
    obtain ⟨other, listed, there⟩ := List.mem_filterMap.mp member
    exact treatments other (ne_of_mem_of_not_mem listed fresh) twin there
  have first : scheduled (position :: rest) classes = decl :: scheduled rest classes := by
    rw [scheduled, List.filterMap_cons_some found, scheduled]
  have all : (scheduled (position :: rest) classes).flatMap (attendClass settings state.failed) =
      attendClass settings state.failed decl ++
        (scheduled rest classes).flatMap (attendClass settings state.failed) := by
    rw [first, List.flatMap_cons]
  have calmLater := swept.calm
  have verdict := swept.verdict
  have attendedLater := swept.attended
  rw [same] at calmLater
  rw [same, later] at verdict attendedLater
  refine ⟨?_, ?_, ?_, ?_⟩
  · rw [first]
    refine List.forall_mem_cons.mpr ⟨calm, fun twin member => ?_⟩
    obtain ⟨other, listed, there⟩ := List.mem_filterMap.mp member
    have differ : other ≠ position := ne_of_mem_of_not_mem listed fresh
    exact (calmLater twin member).congr (apart.failed_iff found there differ.symm attended)
  · intro other
    rw [swept.subject]
    by_cases here : other = position
    · subst here
      have bound := (List.getElem?_eq_some_iff.mp found).1
      rw [if_neg fresh, if_pos List.mem_cons_self, List.getElem?_set_self bound, found,
        Option.map_some]
    · rw [elsewhere other here]
      simp only [List.mem_cons, here, false_or]
      cases there : classes[other]? with
      | none => rfl
      | some twin =>
        simp only [Option.map_some, sweepClass, treatments other here twin there]
  · rw [verdict, all, List.any_append]
  · rw [all]
    exact attended.trans attendedLater

/-- Where classes are apart, visits that come to every position once at most are such a sweep. -/
theorem Visits.swept (visits : Visits settings positions classes state lastClasses last changed)
    (once : positions.Nodup) (apart : Apart classes) :
    Swept settings positions classes state lastClasses last changed := by
  induction visits with
  | done classes state => exact ⟨by simp [scheduled], fun _ => rfl, rfl, .nothing state⟩
  | visit found calm attended _ ih =>
    obtain ⟨fresh, onceLater⟩ := List.nodup_cons.mp once
    exact (ih onceLater (apart.set found _)).cons apart fresh found calm attended

/-- Where classes are apart, a sweep over calm classes comes to its end. -/
theorem exists_visitClasses (once : positions.Nodup) (apart : Apart classes)
    (calm : ∀ decl ∈ scheduled positions classes, Calm settings state.failed decl) :
    ∃ changed, (Pipeline.visitClasses settings Pass.deadStores positions classes state).verdict =
      .ok changed := by
  induction positions generalizing classes state with
  | nil => exact ⟨false, rfl⟩
  | cons position rest ih =>
    obtain ⟨fresh, onceLater⟩ := List.nodup_cons.mp once
    cases found : classes[position]? with
    | none =>
      rw [scheduled, List.filterMap_cons_none found] at calm
      simp only [Pipeline.visitClasses, found]
      exact ih onceLater apart calm
    | some decl =>
      rw [scheduled, List.filterMap_cons_some found] at calm
      obtain ⟨calmHere, calmLater⟩ := List.forall_mem_cons.mp calm
      obtain ⟨subject, verdict, attended⟩ := visitClass_eq calmHere
      have still : ∀ twin ∈ scheduled rest
          (classes.set position (sweepClass settings state.failed decl)),
          Calm settings
            (Pipeline.visitClass settings Pass.deadStores decl state).state.failed twin := by
        intro twin member
        obtain ⟨other, listed, there⟩ := List.mem_filterMap.mp member
        have differ : other ≠ position := ne_of_mem_of_not_mem listed fresh
        rw [List.getElem?_set_ne (Ne.symm differ)] at there
        have before := calmLater twin (List.mem_filterMap.mpr ⟨other, listed, there⟩)
        exact before.congr fun method declares =>
          (apart.failed_iff found there differ.symm attended method declares).symm
      obtain ⟨later, behind⟩ := ih onceLater (apart.set found _) still
      simp only [Pipeline.visitClasses, found, verdict, subject, behind]
      exact ⟨_, rfl⟩

/-- Where no two classes share a reference, a sweep over a group comes to its end exactly if every
class is calm. It then leaves every class as its first state calls for, and has made the treatments
in some order. -/
theorem runPass_deadStores_eq {group : ClassGroup} (apart : Apart group.classes)
    (calm : ∀ decl ∈ group.classes, Calm settings state.failed decl) (order : VisitOrder) :
    ∃ after : RunState σ, Pipeline.runPass settings Pass.deadStores order group state =
        ⟨⟨group.classes.map (sweepClass settings state.failed)⟩, after,
          .ok ((group.classes.flatMap (attendClass settings state.failed)).any (·.2.changed))⟩ ∧
      ∃ treatments, (group.classes.flatMap (attendClass settings state.failed)).Perm treatments ∧
        Attended treatments state after := by
  have once := order.nodup_positions group.classes.length
  have all := scheduled_perm (order.complete group.classes.length)
  obtain ⟨changed, visited⟩ := exists_visitClasses once apart
    fun decl member => calm decl (all.mem_iff.mp member)
  obtain ⟨-, subject, verdict, attended⟩ := (visits_of_runPass visited).swept once apart
  have treatments := all.flatMap_right (attendClass settings state.failed)
  rw [treatments.any_eq] at verdict
  refine ⟨_, ?_, _, treatments.symm, attended⟩
  have every : (Pipeline.runPass settings Pass.deadStores order group state).subject.classes =
      group.classes.map (sweepClass settings state.failed) := by
    apply List.ext_getElem?
    intro position
    rw [subject, List.getElem?_map]
    split
    · rfl
    · next missed =>
      have outside : group.classes[position]? = none :=
        List.getElem?_eq_none (Nat.not_lt.mp (mt VisitOrder.mem_positions.mpr missed))
      rw [outside]
      rfl
  rw [← every, ← verdict, ← visited]
  rfl

/-- A sweep that comes to its end met no class that was not calm. -/
theorem calm_of_runPass {group : ClassGroup} (apart : Apart group.classes) {order : VisitOrder}
    (ran : (Pipeline.runPass settings Pass.deadStores order group state).verdict = .ok changed) :
    ∀ decl ∈ group.classes, Calm settings state.failed decl := by
  have swept := (visits_of_runPass ran).swept (order.nodup_positions _) apart
  have all := scheduled_perm (order.complete group.classes.length)
  exact fun decl member => swept.calm decl (all.mem_iff.mpr member)

/-- The treatments of all methods of a group, in order. -/
def attendGroup (settings : Settings) (failed : List MethodRef) (group : ClassGroup) :
    List (MethodRef × Treatment) :=
  group.declared.map fun entry =>
    (entry.2.reference entry.1, attend settings failed entry.1 entry.2)

/-- A sweep over a group without shared references that comes to its end treats all of its methods,
in some order. -/
theorem attended_runPass {group : ClassGroup} (distinct : group.references.Nodup)
    {order : VisitOrder}
    (ran : (Pipeline.runPass settings Pass.deadStores order group state).verdict = .ok changed) :
    ∃ treatments, (attendGroup settings state.failed group).Perm treatments ∧
      Attended treatments state
        (Pipeline.runPass settings Pass.deadStores order group state).state := by
  have apart := apart_of_references distinct
  obtain ⟨after, outcome, treatments, permuted, attended⟩ :=
    runPass_deadStores_eq apart (calm_of_runPass apart ran) order
  have flat : group.classes.flatMap (attendClass settings state.failed) =
      attendGroup settings state.failed group := by
    simp only [attendGroup, ClassGroup.declared, List.map_flatMap, List.map_map]
    rfl
  rw [flat] at permuted
  rw [outcome]
  exact ⟨treatments, permuted, attended⟩

end ClassTrim.Engine
