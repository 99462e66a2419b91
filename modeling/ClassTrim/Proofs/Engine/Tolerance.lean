import ClassTrim.Proofs.Engine.Fixpoint
import ClassTrim.Proofs.Engine.Interruption
import ClassTrim.Proofs.Usage.Inherited

/-!
# Failures are tolerated and reported once

Where failures are tolerated, a method that fails does not end a run. What does is a method without
branches for which there is no frame: at its first visit the work breaks off, and the run has no
result.

A method that has branches or cannot be run is never rewritten: it stays as it was, unless the
removal of methods takes it away as a whole.

A method that fails is listed, and who is listed is not visited again, so the warnings about a
method are as many as its entries in the list. This counts on distinct references. The first
sweep meets every method that cannot be run and lists it. Later sweeps list nobody: what they
meet has been treated before, and what an elimination leaves can be run.
-/

namespace ClassTrim

/-- Whether the event warns that dead stores could not be eliminated. -/
def Event.reportsFailure (event : Event) : Bool :=
  decide (event.kind = .warning) && "dead-stores failed".toList.isPrefixOf event.message.toList

/-- The number of warnings that the dead stores of a method could not be eliminated. -/
def EventLog.failures (log : EventLog) (method : MethodRef) : Nat :=
  log.countP fun event => event.reportsFailure && decide (event.method = some method)

/-- The method has a body with branches, or one that cannot be run. -/
def MethodDecl.Resists (method : MethodDecl) (owner : String) : Prop :=
  ∃ body, method.body = some body ∧ (body.hasBranches = true ∨
    ∃ fault, Simulation.runMethod (some owner) method = .error fault)

namespace DeadStore

/-- A method that an elimination changes does not resist. -/
theorem not_resists_of_eliminate {owner : String} {method : MethodDecl} {limit : Nat}
    {last : Body} {reports : List Report}
    (eliminated : eliminate owner method limit = .ok (some (last, reports))) :
    ¬method.Resists owner := by
  obtain ⟨frame, body, simulation, _, framed, given, straight, _, _, ran, _⟩ :=
    eliminate_census eliminated
  have runs := (Simulation.runMethod_eq_ok given).mpr ⟨frame, framed, ran⟩
  rintro ⟨other, same, branches | ⟨fault, failed⟩⟩
  · cases given.symm.trans same
    rw [straight] at branches
    cases branches
  · cases runs.symm.trans failed

end DeadStore

namespace EventLog

variable {log : EventLog}

/-- The warnings of two logs add up. -/
theorem failures_append (first second : EventLog) (method : MethodRef) :
    failures (first ++ second) method = failures first method + failures second method :=
  List.countP_append

/-- A log without warnings of this kind has none about any method. -/
theorem failures_eq_zero (quiet : ∀ event ∈ log, event.reportsFailure = false)
    (method : MethodRef) : failures log method = 0 := by
  apply List.countP_eq_zero.mpr
  intro event member
  simp [quiet event member]

end EventLog

namespace Engine

variable {σ : Type} {settings : Settings} {group next last origin : ClassGroup}
  {state nextState lastState : RunState σ} {changed : Bool} {owner : String}
  {method : MethodDecl} {failed : List MethodRef} {reference : MethodRef}

/-- What is no warning reports no failure. -/
theorem reportsFailure_of_change {event : Event} (change : event.kind ≠ .warning) :
    event.reportsFailure = false := by
  simp [Event.reportsFailure, change]

/-- What an elimination records is no failure. -/
theorem reportsFailure_of_mem_storeEvents {body : Body} {reports : List Report} {event : Event}
    (member : event ∈ storeEvents settings reference body reports) :
    event.reportsFailure = false := by
  rcases List.mem_append.mp member with removal | limit
  · obtain ⟨report, _, recorded⟩ := List.mem_flatMap.mp removal
    apply reportsFailure_of_change
    rcases List.mem_append.mp recorded with removed | inserted
    · obtain ⟨_, _, rfl⟩ := List.mem_map.mp removed
      exact nofun
    · obtain ⟨_, _, rfl⟩ := List.mem_map.mp inserted
      exact nofun
  · unfold Pass.limitWarning at limit
    split at limit
    · rw [List.mem_singleton.mp limit]
      simp [Event.reportsFailure, Event.about, String.toList_append, List.isPrefixOf_cons_cons]
    · cases limit

/-- The warning of a failure does report one. -/
theorem reportsFailure_failureWarning (reference : MethodRef) (fault : Fault) :
    (Pipeline.failureWarning (Pass.deadStores : Pass σ) reference fault).reportsFailure = true := by
  simp [Event.reportsFailure, Pipeline.failureWarning, Event.about, Pass.deadStores,
    String.toList_append]

/-- A treatment warns of a failure if it fails, and names the method that it is of. -/
theorem failures_attend (settings : Settings) (failed : List MethodRef) (owner : String)
    (method : MethodDecl) (reference : MethodRef) :
    EventLog.failures (attend settings failed owner method).events reference =
      if (attend settings failed owner method).failed = true ∧
        method.reference owner = reference then 1 else 0 := by
  unfold attend visit
  split
  · unfold treat
    split
    · next fault _ =>
      rw [EventLog.failures, List.countP_singleton, reportsFailure_failureWarning]
      simp [Pipeline.failureWarning, Event.about]
    · rfl
    · rw [EventLog.failures_eq_zero fun _ => reportsFailure_of_mem_storeEvents]
      simp
  · rfl

/-- Who fails was not listed. -/
theorem unlisted_of_attend (fails : (attend settings failed owner method).failed = true) :
    method.reference owner ∉ failed := by
  unfold attend visit at fails
  split at fails
  · next selected =>
    simp only [Bool.and_eq_true, Bool.not_eq_true', decide_eq_false_iff_not] at selected
    exact selected.1
  · cases fails

/-- Who cannot be run and is not listed fails. -/
theorem attend_of_fails (fails : method.Fails owner) (positive : 0 < settings.maxRemovals)
    (unlisted : method.reference owner ∉ failed) :
    (attend settings failed owner method).failed = true := by
  obtain ⟨fault, refused, _⟩ := DeadStore.eliminate_of_fails_of_pos fails positive
  obtain ⟨_, body, _, _, given, plain, _⟩ := fails
  have straight : method.isStraight = true := by simp [MethodDecl.isStraight, given, plain]
  simp [attend, visit, treat, unlisted, straight, refused]

/-- The methods that fail in a sweep. -/
def failing (settings : Settings) (failed : List MethodRef) (group : ClassGroup) :
    List MethodRef :=
  (group.declared.filter fun entry => (attend settings failed entry.1 entry.2).failed).map
    fun entry => entry.2.reference entry.1

/-- Who fails in a sweep has a treatment that failed. -/
theorem mem_failing : reference ∈ failing settings failed group ↔ ∃ treatment,
    (reference, treatment) ∈ attendGroup settings failed group ∧ treatment.failed = true := by
  simp only [failing, attendGroup, List.mem_map, List.mem_filter, Prod.mk.injEq]
  constructor
  · rintro ⟨entry, ⟨member, fails⟩, rfl⟩
    exact ⟨_, ⟨entry, member, rfl, rfl⟩, fails⟩
  · rintro ⟨_, ⟨entry, member, rfl, rfl⟩, fails⟩
    exact ⟨entry, ⟨member, fails⟩, rfl⟩

/-- The treatments of a group warn of those who fail, of each once. -/
theorem failures_attendGroup (settings : Settings) (failed : List MethodRef) (group : ClassGroup)
    (reference : MethodRef) :
    EventLog.failures ((attendGroup settings failed group).flatMap (·.2.events)) reference =
      (failing settings failed group).count reference := by
  simp only [attendGroup, failing]
  induction group.declared with
  | nil => rfl
  | cons entry rest ih =>
    rw [List.map_cons, List.flatMap_cons, EventLog.failures_append, ih, failures_attend]
    cases fails : (attend settings failed entry.1 entry.2).failed with
    | false => simp [fails]
    | true => simp [fails, List.count_cons, Nat.add_comm]

/-- The warnings about a method are as many as its entries in the list of failures. -/
def Tallied (state : RunState σ) : Prop :=
  ∀ reference, EventLog.failures state.events reference = if reference ∈ state.failed then 1 else 0

/-- What reports no failure does not change the count. -/
theorem Tallied.record (tallied : Tallied state) {events : EventLog}
    (quiet : ∀ event ∈ events, event.reportsFailure = false) : Tallied (state.record events) := by
  intro reference
  rw [RunState.record, EventLog.failures_append, EventLog.failures_eq_zero quiet]
  exact tallied reference

/-- A sweep warns of those whom it lists. -/
theorem Tallied.sweep (tallied : Tallied state) (distinct : group.references.Nodup)
    {treatments : List (MethodRef × Treatment)}
    (permuted : (attendGroup settings state.failed group).Perm treatments)
    (attended : Attended treatments state lastState) : Tallied lastState := by
  intro reference
  have listed : reference ∈ lastState.failed ↔
      reference ∈ state.failed ∨ reference ∈ failing settings state.failed group := by
    simp only [attended.failed, mem_failing, permuted.mem_iff]
  have once : (failing settings state.failed group).Nodup :=
    distinct.sublist (List.filter_sublist.map _)
  have warned : EventLog.failures (treatments.flatMap (·.2.events)) reference =
      (failing settings state.failed group).count reference :=
    ((permuted.flatMap_right _).countP_eq _).symm.trans
      (failures_attendGroup settings state.failed group reference)
  rw [attended.events, EventLog.failures_append, tallied reference, warned, once.count]
  by_cases before : reference ∈ state.failed
  · have spared : reference ∉ failing settings state.failed group := by
      intro member
      obtain ⟨entry, fails, rfl⟩ := List.mem_map.mp member
      exact unlisted_of_attend (List.mem_filter.mp fails).2 before
    simp [listed, before, spared]
  · simp [listed, before]

/-- No reference is declared twice, and failures are tallied. -/
structure Orderly (group : ClassGroup) (state : RunState σ) : Prop where
  distinct : group.references.Nodup
  tallied : Tallied state

/-- A pass keeps a run orderly. -/
theorem Orderly.runPass {pass : Pass σ} (orderly : Orderly group state)
    (chosen : Chosen settings pass) {order : VisitOrder}
    (ran : (Pipeline.runPass settings pass order group state).verdict = .ok changed) :
    Orderly (Pipeline.runPass settings pass order group state).subject
      (Pipeline.runPass settings pass order group state).state where
  distinct := (Edits.runPass chosen ran).distinct orderly.distinct
  tallied := by
    cases chosen with
    | unusedMethods =>
      rw [runPass_unusedMethods]
      split
      · exact orderly.tallied
      · apply orderly.tallied.record
        intro event member
        obtain ⟨_, _, rfl⟩ := List.mem_map.mp member
        exact reportsFailure_of_change nofun
    | unusedFields =>
      rw [runPass_unusedFields]
      split
      · exact orderly.tallied
      · apply orderly.tallied.record
        intro event member
        obtain ⟨_, _, rfl⟩ := List.mem_map.mp member
        exact reportsFailure_of_change nofun
    | deadStores =>
      obtain ⟨treatments, permuted, attended⟩ := attended_runPass orderly.distinct ran
      exact orderly.tallied.sweep orderly.distinct permuted attended

/-- Passes keep a run orderly. -/
theorem Orderly.runPasses {passes : List (Pass σ)} (orderly : Orderly group state)
    (chosen : ∀ pass ∈ passes, Chosen settings pass) {orders : Nat → VisitOrder}
    (ran : (Pipeline.runPasses settings passes orders group state).verdict = .ok changed) :
    Orderly (Pipeline.runPasses settings passes orders group state).subject
      (Pipeline.runPasses settings passes orders group state).state := by
  induction passes generalizing orders group state changed with
  | nil => exact orderly
  | cons pass rest ih =>
    obtain ⟨first, chosenLater⟩ := List.forall_mem_cons.mp chosen
    simp only [Pipeline.runPasses] at ran ⊢
    split at ran
    · cases ran
    · next opened =>
      obtain ⟨later, ranLater, rfl⟩ := exists_of_map_eq_ok ran
      exact ih (orderly.runPass first opened) chosenLater ranLater

/-- Rounds keep a run orderly. -/
theorem Orderly.runRounds {passes : List (Pass σ)} (orderly : Orderly group state)
    (chosen : ∀ pass ∈ passes, Chosen settings pass) {schedule : Schedule}
    {finished rounds made : Nat}
    (ran : (Pipeline.runRounds settings passes schedule finished rounds group state).verdict =
      .ok made) :
    Orderly (Pipeline.runRounds settings passes schedule finished rounds group state).subject
      (Pipeline.runRounds settings passes schedule finished rounds group state).state := by
  induction rounds generalizing finished group state with
  | zero => exact orderly
  | succ rounds ih =>
    simp only [Pipeline.runRounds, runRound_eq chosen] at ran ⊢
    split at ran
    · cases ran
    · next ended => exact orderly.runPasses chosen ended
    · next goesOn => exact ih (orderly.runPasses chosen goesOn) ran

/-- The method is declared as it was, or was removed as a whole. -/
def Kept (settings : Settings) (group : ClassGroup) (state : RunState σ) (owner : String)
    (method : MethodDecl) : Prop :=
  (owner, method) ∈ group.declared ∨
    settings.cleanup.unusedMethods = true ∧ method.reference owner ∉ group.references ∧
      Pass.methodEvent (method.reference owner) ∈ state.events

/-- No edit rewrites a method that resists. -/
theorem Kept.edit (kept : Kept settings group state owner method)
    (resists : method.Resists owner) (distinct : group.references.Nodup)
    (edit : Edit settings group state next nextState changed) :
    Kept settings next nextState owner method := by
  cases edit with
  | methods chosen =>
    rcases kept with member | ⟨asked, gone, recorded⟩
    · rcases Usage.mem_declared_or_removed distinct member
        (Usage.unusedMethods group (Usage.usedMethods group)) with stays | ⟨removed, gone⟩
      · exact .inl stays
      · exact .inr ⟨chosen, gone, List.mem_append_right _ (List.mem_map_of_mem removed)⟩
    · refine .inr ⟨asked, fun stays => gone ?_, List.mem_append_left _ recorded⟩
      exact ((Usage.removeUnusedMethods_accounts group).1.map _).subset stays
  | fields =>
    rw [Kept, ClassGroup.references, (Usage.removeUnusedFields_accounts group).1]
    exact kept.imp_right fun removed =>
      ⟨removed.1, removed.2.1, List.mem_append_left _ removed.2.2⟩
  | @stores site other _ body _ eliminated =>
    rcases kept with member | ⟨asked, gone, recorded⟩
    · rcases Site.mem_declared_hold.mp member with here | elsewhere
      · cases here
        exact absurd resists (DeadStore.not_resists_of_eliminate eliminated)
      · exact .inl (Site.mem_declared_hold.mpr (.inr elsewhere))
    · refine .inr ⟨asked, ?_, List.mem_append_left _ recorded⟩
      rwa [references_hold_body]
  | failure =>
    exact kept.imp_right fun removed =>
      ⟨removed.1, removed.2.1, List.mem_append_left _ removed.2.2⟩

/-- Edits rewrite no method that resists. -/
theorem Kept.edits (kept : Kept settings group state owner method)
    (resists : method.Resists owner) (distinct : group.references.Nodup)
    (edits : Edits settings group state last lastState changed) :
    Kept settings last lastState owner method := by
  have both := edits.keeps
    (motive := fun group state => Kept settings group state owner method ∧ group.references.Nodup)
    (fun edit held => ⟨held.1.edit resists held.2 edit, edit.distinct held.2⟩) ⟨kept, distinct⟩
  exact both.1

/-- Who fails now has failed from the beginning, and so has who is listed. -/
structure Blames (origin group : ClassGroup) (state : RunState σ) : Prop where
  failing : ∀ owner method, (owner, method) ∈ group.declared → method.Fails owner →
    (owner, method) ∈ origin.declared
  blamed : ∀ reference ∈ state.failed, ∃ owner method, (owner, method) ∈ origin.declared ∧
    method.Fails owner ∧ method.reference owner = reference

/-- An edit leaves no new failure behind and lists only who fails. -/
theorem Blames.edit (blames : Blames origin group state)
    (edit : Edit settings group state next nextState changed) :
    Blames origin next nextState := by
  cases edit with
  | methods =>
    refine ⟨fun owner method member => ?_, blames.blamed⟩
    exact blames.failing owner method ((Usage.removeUnusedMethods_accounts group).1.subset member)
  | fields =>
    refine ⟨fun owner method member => ?_, blames.blamed⟩
    rw [(Usage.removeUnusedFields_accounts group).1] at member
    exact blames.failing owner method member
  | @stores site other _ body _ eliminated =>
    refine ⟨fun owner method member fails => ?_, blames.blamed⟩
    rcases Site.mem_declared_hold.mp member with here | elsewhere
    · cases here
      exact absurd fails (DeadStore.not_fails_of_eliminate eliminated).2.2
    · exact blames.failing owner method (Site.mem_declared_hold.mpr (.inr elsewhere)) fails
  | @failure site other _ _ refused usual straight =>
    refine ⟨blames.failing, fun reference listed => ?_⟩
    rcases List.mem_insert_iff.mp listed with rfl | before
    · have fails := DeadStore.fails_of_eliminate straight refused usual
      have member : (site.owner, other) ∈ (site.hold [other]).declared :=
        Site.mem_declared_hold.mpr (.inl rfl)
      exact ⟨site.owner, other, blames.failing _ other member fails, fails, rfl⟩
    · exact blames.blamed reference before

/-- Edits leave no new failure behind and list only who fails. -/
theorem Blames.edits (blames : Blames origin group state)
    (edits : Edits settings group state last lastState changed) :
    Blames origin last lastState :=
  edits.keeps (fun edit blames => blames.edit edit) blames

/-- Who is listed at the end of a run are the survivors that cannot be run. -/
theorem mem_failed_runRounds (asked : settings.deadStores = true)
    (positive : 0 < settings.maxRemovals) (distinct : group.references.Nodup)
    (unlisted : state.failed = []) {schedule : Schedule} {rounds made : Nat} (many : 0 < rounds)
    (ran : (Pipeline.runRounds settings (ofSettings settings).passes schedule 0 rounds group
      state).verdict = .ok made) (reference : MethodRef) :
    reference ∈ (Pipeline.runRounds settings (ofSettings settings).passes schedule 0 rounds group
        state).state.failed ↔
      ∃ owner method, (owner, method) ∈ (survivors settings group).declared ∧
        method.Fails owner ∧ method.reference owner = reference := by
  obtain ⟨order, middle, midState, first, changed, declared, failed, swept, edits⟩ :=
    exists_first_sweep asked many ran
  rw [unlisted] at failed
  constructor
  · intro listed
    have blames : Blames (survivors settings group) middle midState := by
      refine ⟨fun owner method member _ => declared ▸ member, ?_⟩
      simp [failed]
    have throughout := (blames.edits (Edits.runPass (.deadStores asked) swept)).edits edits
    exact throughout.blamed reference listed
  · rintro ⟨owner, method, member, fails, rfl⟩
    have distinctMiddle : middle.references.Nodup := by
      rw [ClassGroup.references, declared]
      exact distinct.sublist ((survivors_sublist settings group).map _)
    obtain ⟨treatments, permuted, attended⟩ := attended_runPass distinctMiddle swept
    apply edits.failed_subset
    rw [attended.failed]
    have treated : (method.reference owner, attend settings midState.failed owner method) ∈
        attendGroup settings midState.failed middle :=
      List.mem_map.mpr ⟨(owner, method), declared ▸ member, rfl⟩
    refine .inr ⟨_, permuted.subset treated, ?_⟩
    apply attend_of_fails fails positive
    rw [failed]
    exact List.not_mem_nil

/-- Where failures are tolerated and no two methods have one reference, a run succeeds, in whatever
order the classes are visited, unless a method without branches and without a frame interrupts it,
and nothing else ends it. In a run that succeeds, a method that has branches or cannot be run ends
as it was, unless the removal of methods takes it as a whole. If dead stores are eliminated at all,
there is one warning about each method without branches that cannot be run and that the first
removal leaves, however many rounds follow, and none about others. -/
theorem process_tolerates (settings : Settings) (schedule : Schedule) (group : ClassGroup)
    (memory : σ) (tolerated : settings.continueOnError = true)
    (distinct : group.references.Nodup) :
    ((∃ account, ((ofSettings settings).process schedule group memory).verdict = .ok account) ↔
        ¬Interrupted settings group) ∧
      (∀ fault, ((ofSettings settings).process schedule group memory).verdict = .error fault →
        fault.isCrash = true) ∧
      ∀ account, ((ofSettings settings).process schedule group memory).verdict = .ok account →
        (∀ owner method, (owner, method) ∈ group.declared → method.Resists owner →
          (owner, method) ∈
              ((ofSettings settings).process schedule group memory).subject.declared ∨
            settings.cleanup.unusedMethods = true ∧
              method.reference owner ∉
                ((ofSettings settings).process schedule group memory).subject.references ∧
              Pass.methodEvent (method.reference owner) ∈ account.events) ∧
        (settings.deadStores = true → 1 ≤ settings.maxIterations → 1 ≤ settings.maxRemovals →
          (∀ owner method, (owner, method) ∈ (survivors settings group).declared →
            method.Fails owner → account.events.failures (method.reference owner) = 1) ∧
          ∀ reference, (∀ owner method, (owner, method) ∈ (survivors settings group).declared →
            method.Fails owner → method.reference owner ≠ reference) →
              account.events.failures reference = 0) := by
  have chosen : ∀ pass ∈ (ofSettings settings : Engine σ).passes, Chosen settings pass :=
    fun _ => chosen_of_mem_passes
  refine ⟨exists_process_iff tolerated distinct schedule memory,
    fun fault => isCrash_of_process tolerated, fun account succeeded => ?_⟩
  obtain ⟨made, ran, rfl⟩ := exists_of_map_eq_ok succeeded
  constructor
  · intro owner method member resists
    obtain ⟨changed, edits⟩ := Edits.runRounds chosen ran
    have kept : Kept settings group (.start memory) owner method := .inl member
    exact kept.edits resists distinct edits
  · intro asked many positive
    have start : Orderly group (.start memory) := ⟨distinct, fun _ => rfl⟩
    have tallied := (start.runRounds chosen ran).tallied
    have listed := mem_failed_runRounds asked positive distinct rfl many ran
    constructor
    · intro owner method member fails
      exact (tallied _).trans (if_pos ((listed _).mpr ⟨owner, method, member, fails, rfl⟩))
    · intro reference others
      refine (tallied reference).trans (if_neg fun blamed => ?_)
      obtain ⟨owner, method, member, fails, same⟩ := (listed reference).mp blamed
      exact others owner method member fails same

/-- Of two methods, one fails in the first round and is not tried in the next two, in which the
other is treated. -/
theorem process_tolerates_workbench :
    (workbench "broken" "working").references.Nodup ∧
      ∃ account,
        ((ofSettings oneByOne).process .loadOrder (workbench "broken" "working") ()).verdict =
            .ok account ∧
          ("Workbench", ⟨"broken", toNothing, 8, some (.ofPlaced 0 [(.pop, 0), (.ret none, 1)])⟩) ∈
            ((ofSettings oneByOne).process .loadOrder
              (workbench "broken" "working") ()).subject.declared ∧
          account.events.failures ⟨"Workbench", "broken", toNothing⟩ = 1 ∧
          account.events.failures ⟨"Workbench", "working", toNothing⟩ = 0 := by
  have distinct : (workbench "broken" "working").references.Nodup := by decide
  obtain ⟨succeeds, _, tolerates⟩ :=
    process_tolerates oneByOne .loadOrder (workbench "broken" "working") () rfl distinct
  obtain ⟨account, succeeded⟩ := succeeds.mpr (by
    rintro ⟨_, _, _, owner, method, member, _, fault, unframed⟩
    rcases List.mem_cons.mp member with first | second
    · obtain ⟨rfl, rfl⟩ := Prod.mk.inj first
      cases unframed
    · obtain ⟨rfl, rfl⟩ := Prod.mk.inj (List.mem_singleton.mp second)
      cases unframed)
  obtain ⟨resisting, warned⟩ := tolerates account succeeded
  have stays := resisting "Workbench" _ List.mem_cons_self ⟨_, rfl, .inr ⟨_, rfl⟩⟩
  obtain ⟨once, never⟩ := warned rfl (by decide) (by decide)
  refine ⟨distinct, account, succeeded, stays.resolve_right nofun, ?_, ?_⟩
  · exact once "Workbench" _ List.mem_cons_self ⟨_, _, _, rfl, rfl, rfl, rfl⟩
  · apply never
    intro owner method member
    rcases List.mem_cons.mp member with first | second
    · obtain ⟨rfl, rfl⟩ := Prod.mk.inj first
      exact fun _ => by decide
    · obtain ⟨rfl, rfl⟩ := Prod.mk.inj (List.mem_singleton.mp second)
      rintro ⟨frame, body, fault, framed, given, _, failed⟩
      cases framed
      cases given
      cases failed

/-- A class with one method, whose parameters need a slot more than a word can count. -/
def flooded : ClassGroup :=
  ⟨[⟨"Flooded", some "java/lang/Object", [], 1, [],
    [⟨"f", Frame.longs 32768, 8, some (.ofPlaced 0 [(.ret none, 0)])⟩]⟩]⟩

/-- The method of this class does nothing but return, and yet no run over the class has a result,
though failures are tolerated. -/
theorem process_flooded :
    flooded.references.Nodup ∧ Settings.sequential.continueOnError = true ∧
      ∃ fault, ((ofSettings .sequential).process .loadOrder flooded ()).verdict = .error fault ∧
        fault.isCrash = true := by
  have distinct : flooded.references.Nodup := List.nodup_singleton _
  have interrupted : Interrupted .sequential flooded := by
    obtain ⟨place, -, unframed⟩ := (Frame.forMethod_eq_error_iff 0 (some "Flooded") _).mpr
      (Frame.not_fits_longs "f" (some (.ofPlaced 0 [(.ret none, 0)])) rfl)
    exact ⟨rfl, by decide, by decide, "Flooded", _, List.mem_cons_self, rfl, _, unframed⟩
  refine ⟨distinct, rfl, ?_⟩
  cases ended : ((ofSettings .sequential).process .loadOrder flooded ()).verdict with
  | error fault => exact ⟨fault, rfl, isCrash_of_process rfl ended⟩
  | ok account =>
    have tolerated : Settings.sequential.continueOnError = true := rfl
    have succeeds := exists_process_iff tolerated distinct .loadOrder ()
    exact absurd interrupted (succeeds.mp ⟨account, ended⟩)

end Engine

end ClassTrim
