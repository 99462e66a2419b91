import ClassTrim.Proofs.Engine.Fixpoint
import ClassTrim.Proofs.Usage.Inherited

/-!
# The order of visits

A pass that works on methods visits the classes of a group in the order that a schedule gives,
where the settings leave it open, and in load order where they do not.

Where classes have names of their own, a visit of one class neither rewrites another nor lists
a method of another as failed. So each class receives in every order the treatments that the
state before the pass calls for, and only the order of the events tells one schedule from
another. The next pass reads the group and the sets of methods, never the events, so whole runs
agree as well.
-/

namespace ClassTrim

namespace Usage

/-- Removing methods takes no class away and renames none. -/
theorem names_removeMethods (group : ClassGroup) (doomed : List MethodRef) :
    (removeMethods group doomed).2.classes.map ClassDecl.name =
      group.classes.map ClassDecl.name := by
  induction doomed generalizing group with
  | nil => rfl
  | cons reference rest ih =>
    rcases removeMethods_cons group reference rest with same | ⟨site, gone, -, -, rfl, emptied⟩
    · rw [same, ih]
    · rw [emptied, ih]
      simp [Site.hold, Site.holder]

end Usage

namespace Engine

variable {σ : Type} {settings : Settings} {group next last : ClassGroup}
  {state nextState lastState first second : RunState σ} {changed parallel : Bool}

/-- No edit takes a class away or renames one. -/
theorem Edit.names (edit : Edit settings group state next nextState changed) :
    next.classes.map ClassDecl.name = group.classes.map ClassDecl.name := by
  cases edit with
  | methods => exact Usage.names_removeMethods group _
  | fields =>
    rw [Usage.removeUnusedFields, Usage.removeFields_eq]
    simp [Usage.keepFields, Usage.keepFieldsOf]
  | stores => simp [Site.hold, Site.holder]
  | failure => rfl

/-- Edits take no class away and rename none. -/
theorem Edits.names (edits : Edits settings group state last lastState changed) :
    last.classes.map ClassDecl.name = group.classes.map ClassDecl.name :=
  edits.keeps
    (motive := fun later _ => later.classes.map ClassDecl.name = group.classes.map ClassDecl.name)
    (fun edit same => edit.names.trans same) rfl

/-- States that differ in the order of their entries only. -/
structure Alike (first second : RunState σ) : Prop where
  events : first.events.Perm second.events
  failed : ∀ reference, reference ∈ first.failed ↔ reference ∈ second.failed
  modified : ∀ reference, reference ∈ first.modified ↔ reference ∈ second.modified
  memory : first.memory = second.memory

/-- A state is like itself. -/
theorem Alike.refl (state : RunState σ) : Alike state state :=
  ⟨.refl _, fun _ => .rfl, fun _ => .rfl, rfl⟩

/-- To record the same events keeps states alike. -/
theorem Alike.record {first second : RunState σ} (alike : Alike first second)
    (events : EventLog) : Alike (first.record events) (second.record events) :=
  { alike with events := alike.events.append_right events }

/-- The same treatments in different orders keep states alike. -/
theorem Alike.attended {first second firstLast secondLast : RunState σ}
    {visits others : List (MethodRef × Treatment)} (alike : Alike first second)
    (same : visits.Perm others) (attended : Attended visits first firstLast)
    (attendedOthers : Attended others second secondLast) : Alike firstLast secondLast where
  events := by
    rw [attended.events, attendedOthers.events]
    exact alike.events.append (same.flatMap_right _)
  failed := by
    intro reference
    simp only [attended.failed, attendedOthers.failed, alike.failed, same.mem_iff]
  modified := by
    intro reference
    simp only [attended.modified, attendedOthers.modified, alike.modified, same.mem_iff]
  memory := by rw [attended.memory, attendedOthers.memory, alike.memory]

/-- Outcomes with the same subject and verdict, in states that are alike. -/
structure Agree {α β : Type} (first second : Outcome σ α β) : Prop where
  subject : first.subject = second.subject
  verdict : first.verdict = second.verdict
  state : Alike first.state second.state

/-- A pass that comes to its end agrees with the same pass in any other order. -/
theorem Agree.runPass {pass : Pass σ} (chosen : Chosen settings pass)
    (distinct : (group.classes.map ClassDecl.name).Nodup) (alike : Alike first second)
    {order : VisitOrder}
    (ran : (Pipeline.runPass settings pass order group first).verdict = .ok changed)
    (other : VisitOrder) :
    Agree (Pipeline.runPass settings pass order group first)
      (Pipeline.runPass { settings with parallel } pass other group second) := by
  cases chosen with
  | unusedMethods =>
    rw [runPass_unusedMethods, runPass_unusedMethods]
    split
    · exact ⟨rfl, rfl, alike⟩
    · exact ⟨rfl, rfl, alike.record _⟩
  | unusedFields =>
    rw [runPass_unusedFields, runPass_unusedFields]
    split
    · exact ⟨rfl, rfl, alike⟩
    · exact ⟨rfl, rfl, alike.record _⟩
  | deadStores =>
    have apart := apart_of_names distinct
    have calm := calm_of_runPass apart ran
    have calmOther : ∀ decl ∈ group.classes,
        Calm { settings with parallel } second.failed decl :=
      fun decl member => (calm decl member).congr fun method _ => alike.failed _
    -- whether the order is left open is nothing that a treatment asks for
    have same : attendClass settings first.failed =
        attendClass { settings with parallel } second.failed :=
      funext fun decl => attendClass_congr fun method _ => alike.failed _
    have swept : sweepClass settings first.failed =
        sweepClass { settings with parallel } second.failed := by
      funext decl
      rw [sweepClass, same, sweepClass]
    obtain ⟨firstLast, outcome, treatments, permuted, attended⟩ :=
      runPass_deadStores_eq apart calm order
    obtain ⟨secondLast, outcomeOther, others, permutedOthers, attendedOthers⟩ :=
      runPass_deadStores_eq apart calmOther other
    rw [outcome, outcomeOther, same, swept]
    rw [same] at permuted
    exact ⟨rfl, rfl, alike.attended (permuted.symm.trans permutedOthers) attended attendedOthers⟩

/-- Passes that come to their end agree with the same passes in any other orders. -/
theorem Agree.runPasses {passes : List (Pass σ)} (chosen : ∀ pass ∈ passes, Chosen settings pass)
    (distinct : (group.classes.map ClassDecl.name).Nodup) (alike : Alike first second)
    {orders : Nat → VisitOrder}
    (ran : (Pipeline.runPasses settings passes orders group first).verdict = .ok changed)
    (others : Nat → VisitOrder) :
    Agree (Pipeline.runPasses settings passes orders group first)
      (Pipeline.runPasses { settings with parallel } passes others group second) := by
  induction passes generalizing group orders others first second changed with
  | nil => exact ⟨rfl, rfl, alike⟩
  | cons pass rest ih =>
    obtain ⟨chosenFirst, chosenLater⟩ := List.forall_mem_cons.mp chosen
    simp only [Pipeline.runPasses] at ran ⊢
    split at ran
    · cases ran
    · next here opened =>
      obtain ⟨later, ranLater, rfl⟩ := exists_of_map_eq_ok ran
      obtain ⟨subject, verdict, state⟩ := Agree.runPass chosenFirst distinct alike opened (others 0)
      have names := (Edits.runPass chosenFirst opened).names
      have behind := ih chosenLater (by rwa [names]) state ranLater
        (fun later => others (later + 1))
      rw [← verdict, ← subject, opened]
      exact ⟨behind.subject, congrArg (Except.map _) behind.verdict, behind.state⟩

/-- Whether the order is left open has no part in the choice of the passes. -/
theorem Chosen.withParallel {pass : Pass σ} (chosen : Chosen settings pass) (parallel : Bool) :
    Chosen { settings with parallel } pass := by
  cases chosen with
  | unusedMethods asked => exact .unusedMethods asked
  | unusedFields => exact .unusedFields
  | deadStores asked => exact .deadStores asked

/-- Rounds that come to their end agree with the same rounds under any other schedule. -/
theorem Agree.runRounds {passes : List (Pass σ)} (chosen : ∀ pass ∈ passes, Chosen settings pass)
    (distinct : (group.classes.map ClassDecl.name).Nodup) (alike : Alike first second)
    {schedule : Schedule} {finished rounds made : Nat}
    (ran : (Pipeline.runRounds settings passes schedule finished rounds group first).verdict =
      .ok made) (other : Schedule) :
    Agree (Pipeline.runRounds settings passes schedule finished rounds group first)
      (Pipeline.runRounds { settings with parallel } passes other finished rounds group
        second) := by
  have chosenOther : ∀ pass ∈ passes, Chosen { settings with parallel } pass :=
    fun pass member => (chosen pass member).withParallel parallel
  induction rounds generalizing finished group first second with
  | zero => exact ⟨rfl, rfl, alike⟩
  | succ rounds ih =>
    simp only [Pipeline.runRounds, runRound_eq chosen, runRound_eq chosenOther] at ran ⊢
    split at ran
    · cases ran
    · next ended =>
      obtain ⟨subject, verdict, state⟩ :=
        Agree.runPasses chosen distinct alike ended (other finished)
      rw [← verdict, ended]
      exact ⟨subject, rfl, state⟩
    · next goesOn =>
      obtain ⟨subject, verdict, state⟩ :=
        Agree.runPasses chosen distinct alike goesOn (other finished)
      have names := (Edits.runPasses chosen goesOn).names
      rw [← verdict, ← subject, goesOn]
      exact ih (by rwa [names]) state ran

/-- The classes may be visited in any order. Where they have names of their own and a run succeeds,
every schedule lets it succeed, whether the settings leave the order open or not. It leaves the
same group after the same number of rounds, with the same methods listed as failed and as modified
and with the same events, each as often. -/
theorem process_any_order (settings : Settings) (schedule : Schedule) (group : ClassGroup)
    (memory : σ) (account : Account) (distinct : (group.classes.map ClassDecl.name).Nodup)
    (succeeded : ((ofSettings settings).process schedule group memory).verdict = .ok account)
    (parallel : Bool) (other : Schedule) :
    ∃ again,
      ((ofSettings { settings with parallel }).process other group memory).verdict = .ok again ∧
      ((ofSettings { settings with parallel }).process other group memory).subject =
        ((ofSettings settings).process schedule group memory).subject ∧
      again.iterations = account.iterations ∧ again.events.Perm account.events ∧
      (∀ reference,
        reference ∈ ((ofSettings { settings with parallel }).process other group
            memory).state.failed ↔
          reference ∈ ((ofSettings settings).process schedule group memory).state.failed) ∧
      ∀ reference,
        reference ∈ ((ofSettings { settings with parallel }).process other group
            memory).state.modified ↔
          reference ∈ ((ofSettings settings).process schedule group memory).state.modified := by
  have chosen : ∀ pass ∈ (ofSettings settings : Engine σ).passes, Chosen settings pass :=
    fun _ => chosen_of_mem_passes
  obtain ⟨made, ran, rfl⟩ := exists_of_map_eq_ok succeeded
  obtain ⟨subject, verdict, state⟩ : Agree _ (Pipeline.runRounds { settings with parallel }
      (ofSettings settings).passes _ _ _ _ _) :=
    Agree.runRounds chosen distinct (Alike.refl (.start memory)) ran
      (({ settings with parallel } : Settings).plan other)
  exact ⟨_, congrArg (Except.map _) (verdict.symm.trans ran), subject.symm, rfl,
    state.events.symm, fun reference => (state.failed reference).symm,
    fun reference => (state.modified reference).symm⟩

/-- Two classes, each with a method that cannot be run and one that stores twice for nothing. -/
def benches : ClassGroup :=
  ⟨(workbench "broken" "working").classes ++
    (workbench "broken" "working").classes.map ({ · with name := "Annex" })⟩

/-- The class that the first event of a log is about. -/
def firstOwner (log : EventLog) : Option String :=
  (log.head?.bind Event.method).map MethodRef.owner

/-- The last class is always visited first. -/
def backwards : Schedule :=
  fun _ _ => ⟨fun count => (List.range count).reverse, fun _ => List.reverse_perm _⟩

/-- Visited back to front, the classes need three rounds as well. The events are the same, though
the first of them is about the other class. -/
theorem process_any_order_benches :
    (benches.classes.map ClassDecl.name).Nodup ∧
      ∃ account other,
        ((ofSettings oneByOne).process .loadOrder benches ()).verdict = .ok account ∧
        ((ofSettings { oneByOne with parallel := true }).process backwards benches ()).verdict =
          .ok other ∧
        ((ofSettings { oneByOne with parallel := true }).process backwards benches ()).subject =
          ((ofSettings oneByOne).process .loadOrder benches ()).subject ∧
        other.iterations = 3 ∧ other.events.Perm account.events ∧
        firstOwner account.events = some "Workbench" ∧ firstOwner other.events = some "Annex" := by
  have distinct : (benches.classes.map ClassDecl.name).Nodup := by decide
  have forward : ((ofSettings oneByOne).process .loadOrder benches ()).verdict.map
      (fun account => (account.iterations, firstOwner account.events)) =
        .ok (3, some "Workbench") := by cbv
  have backward : ((ofSettings { oneByOne with parallel := true }).process backwards benches
      ()).verdict.map (fun account => firstOwner account.events) = .ok (some "Annex") := by cbv
  obtain ⟨account, succeeded, seen⟩ := exists_of_map_eq_ok forward
  obtain ⟨three, begins⟩ := Prod.mk.inj seen
  obtain ⟨other, succeededOther, subject, rounds, events, -, -⟩ :=
    process_any_order oneByOne .loadOrder benches () account distinct succeeded true backwards
  rw [succeededOther] at backward
  exact ⟨distinct, account, other, succeeded, succeededOther, subject, rounds.trans three,
    events, begins, Except.ok.inj backward⟩

end Engine

end ClassTrim
