import ClassTrim.Proofs.Engine.Ledger
import ClassTrim.Proofs.Engine.Sweep
import ClassTrim.Proofs.Engine.Weight

/-!
# Where a run comes to rest

A pass rests on a group if, whatever has happened before and in whatever order it visits the
classes, it leaves the group as it is and records at most warnings. The last round of a run that
stops of its own accord changed nothing. Of what it did not look at, the methods left alone as
failed, a steady run knows that they would fail again. So every pass rests on the group that is
left, and a second run over it ends after one round.

Where a method that fails shares class, name and descriptor with one that does not, the
second is left alone for no reason of its own, and the next run takes it up again.
-/

namespace ClassTrim.Engine

variable {σ : Type} {settings : Settings} {group next last : ClassGroup}
  {state nextState lastState : RunState σ} {changed : Bool}

/-- Nothing but warnings was recorded between two states. -/
def Warned (state next : RunState σ) : Prop :=
  ∃ warnings : EventLog, (∀ event ∈ warnings, event.kind = .warning) ∧
    next.events = state.events ++ warnings

/-- Nothing was recorded between a state and itself. -/
theorem Warned.refl (state : RunState σ) : Warned state state :=
  ⟨[], by simp, by simp⟩

/-- Warnings behind warnings are warnings. -/
theorem Warned.trans (first : Warned state nextState) (second : Warned nextState lastState) :
    Warned state lastState := by
  obtain ⟨early, onlyEarly, eventsEarly⟩ := first
  obtain ⟨late, onlyLate, eventsLate⟩ := second
  refine ⟨early ++ late, ?_, by rw [eventsLate, eventsEarly, List.append_assoc]⟩
  intro event member
  rcases List.mem_append.mp member with inEarly | inLate
  · exact onlyEarly event inEarly
  · exact onlyLate event inLate

/-- An outcome that left its subject as it was and recorded at most warnings. -/
structure Still {α : Type} (subject : α) (state : RunState σ) (outcome : Outcome σ α Bool) :
    Prop where
  subject : outcome.subject = subject
  verdict : outcome.verdict = .ok false
  warned : Warned state outcome.state

/-- Elimination leaves a method as it is: it finds nothing, or fails in a way that the
settings tolerate. -/
def Idle (settings : Settings) (owner : String) (method : MethodDecl) : Prop :=
  DeadStore.eliminate owner method settings.maxRemovals = .ok none ∨
    settings.continueOnError = true ∧ ∃ fault,
      DeadStore.eliminate owner method settings.maxRemovals = .error fault ∧
        fault.isFatal = false

/-- A visit of methods that elimination leaves as they are records at most warnings. -/
theorem still_visitMethods {owner : String} {methods : List (MethodDecl × Bool)}
    (idle : ∀ entry ∈ methods, entry.2 = true → Idle settings owner entry.1)
    (state : RunState σ) :
    Still (methods.map Prod.fst) state
      (Pipeline.visitMethods settings Pass.deadStores owner methods state) := by
  induction methods generalizing state with
  | nil => exact ⟨rfl, rfl, .refl state⟩
  | cons entry rest ih =>
    obtain ⟨method, selected⟩ := entry
    have later := ih fun other member => idle other (List.mem_cons_of_mem _ member)
    cases selected with
    | false =>
      obtain ⟨subject, verdict, warned⟩ := later state
      simp only [Pipeline.visitMethods]
      exact ⟨by rw [subject, List.map_cons], verdict, warned⟩
    | true =>
      rcases idle (method, true) List.mem_cons_self rfl with
        nothing | ⟨tolerated, fault, failed, usual⟩
      · have outcome : Pass.deadStores.onMethod settings owner method state =
            (.ok none, state) := by
          simp [Pass.deadStores, Pass.eliminateStores, nothing]
        obtain ⟨subject, verdict, warned⟩ := later state
        simp only [Pipeline.visitMethods, outcome]
        exact ⟨by rw [subject, List.map_cons, Option.getD_none], by rw [verdict]; rfl, warned⟩
      · have outcome : Pass.deadStores.onMethod settings owner method state =
            (.error fault, state) := by
          simp [Pass.deadStores, Pass.eliminateStores, failed]
        obtain ⟨subject, verdict, warned⟩ :=
          later ((state.record [Pipeline.failureWarning (Pass.deadStores : Pass σ)
            (method.reference owner) fault]).markFailed (method.reference owner))
        have first : Warned state ((state.record [Pipeline.failureWarning
            (Pass.deadStores : Pass σ) (method.reference owner) fault]).markFailed
              (method.reference owner)) :=
          ⟨[_], by simp [Pipeline.failureWarning, Event.about], rfl⟩
        have goesOn : ¬(fault.isFatal || !settings.continueOnError) = true := by
          simp [usual, tolerated]
        simp only [Pipeline.visitMethods, outcome, if_neg goesOn]
        exact ⟨by rw [subject, List.map_cons], verdict, first.trans warned⟩

/-- So does a visit of classes with such methods. -/
theorem still_visitClasses {classes : List ClassDecl}
    (idle : ∀ decl ∈ classes, ∀ method ∈ decl.methods, method.isStraight = true →
      Idle settings decl.name method) (positions : List Nat) (state : RunState σ) :
    Still classes state
      (Pipeline.visitClasses settings Pass.deadStores positions classes state) := by
  induction positions generalizing state with
  | nil => exact ⟨rfl, rfl, .refl state⟩
  | cons position rest ih =>
    cases found : classes[position]? with
    | none =>
      simp only [Pipeline.visitClasses, found]
      exact ih state
    | some decl =>
      have idleHere : ∀ entry ∈ decl.methods.map (fun method =>
          (method, !state.isFailed (method.reference decl.name) &&
            (Pass.deadStores : Pass σ).accepts decl method)),
          entry.2 = true → Idle settings decl.name entry.1 := by
        intro entry member selected
        obtain ⟨method, inside, rfl⟩ := List.mem_map.mp member
        exact idle decl (List.mem_of_getElem? found) method inside
          (Bool.and_eq_true_iff.mp selected).2
      obtain ⟨subject, verdict, warned⟩ := still_visitMethods idleHere state
      have here : (Pipeline.visitClass settings Pass.deadStores decl state).subject = decl := by
        simp only [Pipeline.visitClass, subject, List.map_map, Function.comp_def, List.map_id']
      have done : (Pipeline.visitClass settings Pass.deadStores decl state).verdict =
          .ok false := verdict
      have same : classes.set position decl = classes := by
        obtain ⟨bound, rfl⟩ := List.getElem?_eq_some_iff.mp found
        exact List.set_getElem_self bound
      obtain ⟨subjects, verdicts, warnedLater⟩ :=
        ih (Pipeline.visitClass settings Pass.deadStores decl state).state
      simp only [Pipeline.visitClasses, found, done, here, same]
      exact ⟨subjects, by rw [verdicts]; rfl, warned.trans warnedLater⟩

/-- Whatever has happened before and in whatever order the classes are visited, the pass leaves
the group as it is and records at most warnings. -/
def Rests (settings : Settings) (pass : Pass σ) (group : ClassGroup) : Prop :=
  ∀ order state, Still group state (Pipeline.runPass settings pass order group state)

/-- Passes that rest on a group leave it as it is, one after the other. -/
theorem still_runPasses {passes : List (Pass σ)}
    (rests : ∀ pass ∈ passes, Rests settings pass group) (orders : Nat → VisitOrder)
    (state : RunState σ) :
    Still group state (Pipeline.runPasses settings passes orders group state) := by
  induction passes generalizing orders state with
  | nil => exact ⟨rfl, rfl, .refl state⟩
  | cons pass rest ih =>
    obtain ⟨subject, verdict, warned⟩ := rests pass List.mem_cons_self (orders 0) state
    obtain ⟨subjects, verdicts, warnedLater⟩ :=
      ih (fun other member => rests other (List.mem_cons_of_mem _ member))
        (fun later => orders (later + 1))
        (Pipeline.runPass settings pass (orders 0) group state).state
    simp only [Pipeline.runPasses, verdict, subject]
    exact ⟨subjects, by rw [verdicts]; rfl, warned.trans warnedLater⟩

/-- Who failed once stays listed. -/
theorem Edit.failed_subset (edit : Edit settings group state next nextState changed) :
    state.failed ⊆ nextState.failed := by
  cases edit with
  | methods | fields | stores => exact fun _ member => member
  | failure => exact fun _ member => List.mem_insert_of_mem member

/-- Edits take nobody off the list. -/
theorem Edits.failed_subset (edits : Edits settings group state last lastState changed) :
    state.failed ⊆ lastState.failed :=
  edits.keeps (motive := fun _ later => state.failed ⊆ later.failed)
    (fun edit before _ member => edit.failed_subset (before member)) fun _ member => member

/-- Edits that changed nothing left the group as it was. -/
theorem Edits.eq_of_unchanged (edits : Edits settings group state last lastState false) :
    last = group := by
  generalize same : false = changed at edits
  induction edits with
  | done => rfl
  | step edit _ ih =>
    obtain ⟨firstSame, laterSame⟩ := Bool.or_eq_false_iff.mp same.symm
    rw [ih laterSame.symm]
    cases edit with
    | failure => rfl
    | methods | fields | stores => cases firstSame

/-- A treatment that changed nothing left the method as it was. -/
theorem method_attend {failed : List MethodRef} {owner : String} {method : MethodDecl}
    (unchanged : (attend settings failed owner method).changed = false) :
    (attend settings failed owner method).method = method := by
  unfold attend visit at unchanged ⊢
  split at unchanged
  · next selected =>
    rw [if_pos selected]
    unfold treat at unchanged ⊢
    split at unchanged
    · rfl
    · rfl
    · cases unchanged
  · next left => rw [if_neg left]

/-- A treatment that changed nothing was not made, since the method is listed; or the method failed;
or elimination found nothing in it. -/
theorem settled_attend {failed : List MethodRef} {owner : String} {method : MethodDecl}
    (straight : method.isStraight = true)
    (unchanged : (attend settings failed owner method).changed = false) :
    DeadStore.eliminate owner method settings.maxRemovals = .ok none ∨
      method.reference owner ∈ failed ∨ (attend settings failed owner method).failed = true := by
  by_cases listed : method.reference owner ∈ failed
  · exact .inr (.inl listed)
  · have treated : attend settings failed owner method = treat settings owner method := by
      simp [attend, visit, listed, straight]
    rw [treated] at unchanged ⊢
    unfold treat at unchanged ⊢
    split at unchanged
    · exact .inr (.inr rfl)
    · next idle => exact .inl idle
    · cases unchanged

/-- Where no treatment of a class changed anything, the classes stay as they are. -/
theorem set_sweepClass_of_unchanged {failed : List MethodRef} {classes : List ClassDecl}
    {position : Nat} {decl : ClassDecl} (found : classes[position]? = some decl)
    (every : ∀ method ∈ decl.methods, (attend settings failed decl.name method).changed = false) :
    classes.set position (sweepClass settings failed decl) = classes := by
  have methods : (attendClass settings failed decl).map (·.2.method) = decl.methods := by
    rw [attendClass, List.map_map]
    exact (List.map_congr_left fun method inside =>
      method_attend (every method inside)).trans (List.map_id _)
  have left : sweepClass settings failed decl = decl := by rw [sweepClass, methods]
  obtain ⟨bound, rfl⟩ := List.getElem?_eq_some_iff.mp found
  rw [left, List.set_getElem_self bound]

/-- Visits that changed nothing looked at each method without branches of the classes that they
came to, unless it is listed as failed. -/
theorem Visits.settled {positions : List Nat} {classes lastClasses : List ClassDecl}
    (visits : Visits settings positions classes state lastClasses lastState changed)
    (unchanged : changed = false) :
    ∀ position ∈ positions, ∀ decl, classes[position]? = some decl →
      ∀ method ∈ decl.methods, method.isStraight = true →
        DeadStore.eliminate decl.name method settings.maxRemovals = .ok none ∨
          method.reference decl.name ∈ lastState.failed := by
  induction visits with
  | done => simp
  | @visit here rest classes _ decl state middle _ later found _ attended visits ih =>
    obtain ⟨unchangedHere, unchangedLater⟩ := Bool.or_eq_false_iff.mp unchanged
    have every : ∀ method ∈ decl.methods,
        (attend settings state.failed decl.name method).changed = false := by
      intro method inside
      have none := List.any_eq_false.mp unchangedHere _ (List.mem_map_of_mem inside)
      simpa using none
    -- Nothing has changed, so the later visits find the classes that this one found.
    rw [set_sweepClass_of_unchanged found every] at ih
    refine List.forall_mem_cons.mpr ⟨?_, ih unchangedLater⟩
    intro other there method inside straight
    cases found.symm.trans there
    have grown := visits.failed_subset
    rcases settled_attend straight (every method inside) with idle | listed | failed
    · exact .inl idle
    · exact .inr (grown (attended.failed_subset listed))
    · exact .inr (grown ((attended.failed _).mpr
        (.inr ⟨_, List.mem_map_of_mem inside, failed⟩)))

/-- A pass that changed nothing rests on the group, since those that it left alone would
fail. -/
theorem rests_of_runPass {pass : Pass σ} (chosen : Chosen settings pass) {order : VisitOrder}
    (ran : (Pipeline.runPass settings pass order group state).verdict = .ok false)
    (grown : (Pipeline.runPass settings pass order group state).state.failed ⊆ lastState.failed)
    (steady : Steady settings group lastState) : Rests settings pass group := by
  cases chosen with
  | unusedMethods =>
    intro any other
    rw [runPass_unusedMethods] at ran ⊢
    split at ran
    · next nothing =>
      rw [if_pos nothing]
      exact ⟨rfl, rfl, .refl other⟩
    · cases ran
  | unusedFields =>
    intro any other
    rw [runPass_unusedFields] at ran ⊢
    split at ran
    · next nothing =>
      rw [if_pos nothing]
      exact ⟨rfl, rfl, .refl other⟩
    · cases ran
  | deadStores =>
    have idle : ∀ decl ∈ group.classes, ∀ method ∈ decl.methods, method.isStraight = true →
        Idle settings decl.name method := by
      intro decl member method inside straight
      obtain ⟨position, found⟩ := List.getElem?_of_mem member
      have met : position ∈ order.positions group.classes.length :=
        VisitOrder.mem_positions.mpr (List.getElem?_eq_some_iff.mp found).1
      rcases (visits_of_runPass ran).settled rfl position met decl found method inside straight with
        nothing | failed
      · exact .inl nothing
      · have declared := ClassGroup.mem_declared.mpr ⟨decl, member, rfl, inside⟩
        obtain ⟨tolerated, fails⟩ := steady.excused decl.name method declared (grown failed)
        exact (DeadStore.eliminate_of_fails (fails straight) settings.maxRemovals).imp_right
          fun failing => ⟨tolerated, failing⟩
    intro any other
    obtain ⟨subject, verdict, warned⟩ :=
      still_visitClasses idle (any.positions group.classes.length) other
    exact ⟨congrArg ClassGroup.mk subject, verdict, warned⟩

/-- A round that changed nothing leaves a group on which each of its passes rests. -/
theorem rests_of_runPasses {passes : List (Pass σ)}
    (chosen : ∀ pass ∈ passes, Chosen settings pass) {orders : Nat → VisitOrder}
    (ran : (Pipeline.runPasses settings passes orders group state).verdict = .ok false)
    (steady : Steady settings group
      (Pipeline.runPasses settings passes orders group state).state) :
    ∀ pass ∈ passes, Rests settings pass group := by
  induction passes generalizing orders state with
  | nil => simp
  | cons pass rest ih =>
    have chosenLater := fun other member => chosen other (List.mem_cons_of_mem _ member)
    simp only [Pipeline.runPasses] at ran steady
    split at ran
    · cases ran
    · next first opened =>
      obtain ⟨later, ranLater, same⟩ := exists_of_map_eq_ok ran
      obtain ⟨rfl, rfl⟩ := Bool.or_eq_false_iff.mp same
      have unchanged := (Edits.runPass (chosen pass List.mem_cons_self) opened).eq_of_unchanged
      have grown := (Edits.runPasses chosenLater ranLater).failed_subset
      simp only [opened, unchanged] at steady ranLater grown
      have rests := rests_of_runPass (chosen pass List.mem_cons_self) opened grown steady
      exact List.forall_mem_cons.mpr ⟨rests, ih chosenLater ranLater steady⟩

/-- A run that stops before its rounds are used up has made a last round that changed
nothing. -/
theorem exists_last_round {passes : List (Pass σ)}
    (chosen : ∀ pass ∈ passes, Chosen settings pass) {schedule : Schedule}
    {finished rounds made : Nat}
    (ran : (Pipeline.runRounds settings passes schedule finished rounds group state).verdict =
      .ok made)
    (early : made < finished + rounds) :
    ∃ orders middle midState changed, Edits settings group state middle midState changed ∧
      (Pipeline.runPasses settings passes orders middle midState).verdict = .ok false ∧
      (Pipeline.runRounds settings passes schedule finished rounds group state).subject =
        (Pipeline.runPasses settings passes orders middle midState).subject ∧
      (Pipeline.runRounds settings passes schedule finished rounds group state).state =
        (Pipeline.runPasses settings passes orders middle midState).state := by
  induction rounds generalizing finished group state with
  | zero =>
    cases ran
    omega
  | succ rounds ih =>
    simp only [Pipeline.runRounds, runRound_eq chosen] at ran ⊢
    split at ran
    · cases ran
    · next ended => exact ⟨_, group, state, false, .done _ _, ended, rfl, rfl⟩
    · next goesOn =>
      obtain ⟨orders, middle, midState, later, edits, ended, subject, last⟩ := ih ran (by omega)
      exact ⟨orders, middle, midState, true || later,
        (Edits.runPasses chosen goesOn).trans edits, ended, subject, last⟩

/-- Every pass rests on what a steady run leaves, if the run stopped of its own accord. -/
theorem rests_of_runRounds {passes : List (Pass σ)}
    (chosen : ∀ pass ∈ passes, Chosen settings pass) {schedule : Schedule}
    {finished rounds made : Nat}
    (ran : (Pipeline.runRounds settings passes schedule finished rounds group state).verdict =
      .ok made)
    (early : made < finished + rounds) (steady : Steady settings group state) :
    ∀ pass ∈ passes, Rests settings pass
      (Pipeline.runRounds settings passes schedule finished rounds group state).subject := by
  obtain ⟨_, middle, midState, _, edits, ended, subject, _⟩ := exists_last_round chosen ran early
  have lastEdits := Edits.runPasses chosen ended
  have unchanged := lastEdits.eq_of_unchanged
  have steadyLast := (steady.edits edits).edits lastEdits
  rw [unchanged] at steadyLast
  rw [subject, unchanged]
  exact rests_of_runPasses chosen ended steadyLast

/-- Warnings change nothing. -/
theorem isEmpty_ofLog {log : EventLog} (only : ∀ event ∈ log, event.kind = .warning) :
    (Tally.ofLog log).isEmpty = true := by
  have none : ∀ kind, kind ≠ EventKind.warning → EventLog.count log kind = 0 := by
    intro kind change
    apply List.countP_eq_zero.mpr
    intro event member
    simpa [only event member] using change.symm
  simp [Tally.isEmpty, Tally.ofLog, none]

/-- Where every pass rests, a run makes one round and changes nothing. -/
theorem process_of_rests
    (rests : ∀ pass ∈ (ofSettings settings : Engine σ).passes, Rests settings pass group)
    (room : 0 < settings.maxIterations) (schedule : Schedule) (memory : σ) :
    ((ofSettings settings).process schedule group memory).subject = group ∧
      ∃ account, ((ofSettings settings).process schedule group memory).verdict = .ok account ∧
        account.iterations = 1 ∧ account.tally.isEmpty = true := by
  obtain ⟨rounds, more⟩ := Nat.exists_eq_add_one_of_ne_zero (Nat.ne_of_gt room)
  obtain ⟨subject, verdict, warnings, only, events⟩ :=
    still_runPasses rests (settings.plan schedule 0) (.start memory)
  have ended : Pipeline.run settings (ofSettings settings).passes schedule settings.maxIterations
      group (.start memory) =
        { Pipeline.runPasses settings (ofSettings settings).passes (settings.plan schedule 0) group
            (.start memory) with
          verdict := .ok 1 } := by
    rw [more, Pipeline.run, Pipeline.runRounds, runRound_eq fun _ => chosen_of_mem_passes]
    simp only [verdict, Nat.zero_add]
  simp only [process, show (ofSettings settings : Engine σ).settings = settings from rfl, ended]
  refine ⟨subject, _, rfl, rfl, ?_⟩
  exact isEmpty_ofLog (events ▸ only)

/-- Runs come to an end, and where they stop of their own accord nothing is left to do. In
whatever order the classes are visited, the number of rounds exceeds the number of fields, methods
and instructions by one at most. If the rounds were not used up, a second run over what is left, in
whatever order, makes one round, leaves the group as it is and reports no change; where failures
are tolerated, this asks that methods that share class, name and descriptor fail together. -/
theorem process_converges (settings : Settings) (schedule : Schedule) (group : ClassGroup)
    (memory : σ) (account : Account)
    (succeeded : ((ofSettings settings).process schedule group memory).verdict = .ok account) :
    account.iterations ≤ 1 + group.fieldCount + group.methodCount + group.instructionCount ∧
      ((settings.deadStores = true → settings.continueOnError = true → group.Uniform) →
        account.iterations < settings.maxIterations → ∀ (other : Schedule) (later : σ),
          ((ofSettings settings).process other
              ((ofSettings settings).process schedule group memory).subject later).subject =
            ((ofSettings settings).process schedule group memory).subject ∧
            ∃ again, ((ofSettings settings).process other
                ((ofSettings settings).process schedule group memory).subject later).verdict =
                  .ok again ∧
              again.iterations = 1 ∧ again.tally.isEmpty = true) := by
  obtain ⟨rounds, ran, rfl⟩ := exists_of_map_eq_ok succeeded
  constructor
  · have bound := runRounds_le (fun _ => chosen_of_mem_passes) ran
    have weight := group.weight_le
    simp only
    omega
  · intro uniform early other later
    have stopped : rounds < 0 + settings.maxIterations := by
      rw [Nat.zero_add]
      exact early
    have rests := rests_of_runRounds (fun _ => chosen_of_mem_passes) ran stopped
      (.start memory uniform)
    exact process_of_rests rests (Nat.zero_lt_of_lt early) other later

/-- A class with a method that cannot be run and one that stores twice for nothing. -/
def workbench (broken working : String) : ClassGroup :=
  ⟨[⟨"Workbench", some "java/lang/Object", [], 1, [],
    [⟨broken, toNothing, 8, some (.ofPlaced 0 [(.pop, 0), (.ret none, 1)])⟩,
      ⟨working, toNothing, 8, some (.ofPlaced 2 [(.ldc (.int 1), 0), (.store .int 0, 1),
        (.ldc (.int 2), 2), (.store .int 1, 3), (.ret none, 4)])⟩]⟩]⟩

/-- Dead stores are eliminated, from each method one in a round. -/
def oneByOne : Settings :=
  { Settings.sequential with maxRemovals := 1, cleanup := .disabled }

/-- Three rounds eliminate both stores. The broken method is tried again by the second run,
which changes nothing. -/
theorem process_converges_workbench :
    (workbench "broken" "working").Uniform ∧
      ∃ account, ((ofSettings oneByOne).process .loadOrder (workbench "broken" "working")
          ()).verdict = .ok account ∧
        account.iterations = 3 ∧ account.tally = ⟨0, 0, 4, 0, 3⟩ ∧
        ((ofSettings oneByOne).process .loadOrder ((ofSettings oneByOne).process .loadOrder
            (workbench "broken" "working") ()).subject ()).subject =
          ((ofSettings oneByOne).process .loadOrder (workbench "broken" "working") ()).subject ∧
        ∃ again, ((ofSettings oneByOne).process .loadOrder ((ofSettings oneByOne).process .loadOrder
            (workbench "broken" "working") ()).subject ()).verdict = .ok again ∧
          again.iterations = 1 ∧ again.tally.isEmpty = true := by
  have unambiguous : (workbench "broken" "working").Unambiguous := ⟨by decide, by decide⟩
  have ended : ((ofSettings oneByOne).process .loadOrder (workbench "broken" "working")
      ()).verdict.map (fun account => (account.iterations, account.tally)) =
        .ok (3, ⟨0, 0, 4, 0, 3⟩) := by cbv
  obtain ⟨account, succeeded, figures⟩ := exists_of_map_eq_ok ended
  obtain ⟨rounds, tally⟩ := Prod.mk.inj figures
  obtain ⟨_, settled⟩ := process_converges oneByOne .loadOrder _ () account succeeded
  have room : account.iterations < oneByOne.maxIterations := by
    rw [rounds]
    decide
  exact ⟨unambiguous.uniform, account, succeeded, rounds, tally,
    settled (fun _ _ => unambiguous.uniform) room .loadOrder ()⟩

/-- If the two methods share their name, the first run leaves the second alone after one
store, on account of the first, and stops. The next run goes on where it stopped. -/
theorem process_namesakes_unsettled :
    ∃ account again,
      ((ofSettings oneByOne).process .loadOrder (workbench "work" "work") ()).verdict =
          .ok account ∧
        account.iterations = 2 ∧ account.iterations < oneByOne.maxIterations ∧
        ((ofSettings oneByOne).process .loadOrder ((ofSettings oneByOne).process .loadOrder
          (workbench "work" "work") ()).subject ()).verdict = .ok again ∧
        again.iterations = 2 ∧ again.tally = ⟨0, 0, 2, 0, 2⟩ := by
  have ended : ((ofSettings oneByOne).process .loadOrder (workbench "work" "work")
      ()).verdict.map Account.iterations = .ok 2 := by cbv
  have resumed : ((ofSettings oneByOne).process .loadOrder ((ofSettings oneByOne).process
      .loadOrder (workbench "work" "work") ()).subject ()).verdict.map
        (fun account => (account.iterations, account.tally)) = .ok (2, ⟨0, 0, 2, 0, 2⟩) := by cbv
  obtain ⟨account, succeeded, rounds⟩ := exists_of_map_eq_ok ended
  obtain ⟨again, succeededAgain, figures⟩ := exists_of_map_eq_ok resumed
  obtain ⟨roundsAgain, tally⟩ := Prod.mk.inj figures
  have room : account.iterations < oneByOne.maxIterations := by
    rw [rounds]
    decide
  exact ⟨account, again, succeeded, rounds, room, succeededAgain, roundsAgain, tally⟩

end ClassTrim.Engine
