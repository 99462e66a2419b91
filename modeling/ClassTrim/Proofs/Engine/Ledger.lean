import ClassTrim.Proofs.DeadStore.Census
import ClassTrim.Proofs.Engine.Edits
import ClassTrim.Proofs.Usage.Methods

/-!
# The log accounts for what changed

Every edit of a run appends to the log one event for each thing that it took out of the
group or put into it. So the log of a run that succeeds accounts for the difference between
the group as it was and the group that is left. Instructions that disappear together with
an unused method are not recorded one by one; they are accounted for where no method is
removed.
-/

namespace ClassTrim

namespace EventLog

/-- The events of a kind in two logs add up. -/
theorem count_append (first second : EventLog) (kind : EventKind) :
    count (first ++ second) kind = count first kind + count second kind :=
  List.countP_append

/-- Events that are all of one kind count for this kind and for no other. -/
theorem count_map {α : Type} {event : α → Event} {made : EventKind}
    (uniform : ∀ item, (event item).kind = made) (items : List α) (kind : EventKind) :
    count (items.map event) kind = if made = kind then items.length else 0 := by
  rw [count, List.countP_map]
  split
  · next same => simp [Function.comp_def, uniform, same]
  · next apart => simp [Function.comp_def, uniform, apart]

end EventLog

namespace Pass

/-- An event is recorded for each instruction that a removal deleted, and for each one that
it inserted and that is still there. -/
theorem count_removalEvents (method : MethodRef) (body : Body) (report : Report)
    (kind : EventKind) :
    EventLog.count (removalEvents method body report) kind =
      (if EventKind.instructionRemoved = kind then report.removed.length else 0) +
        if EventKind.instructionInserted = kind then (report.inserted.filterMap body.get?).length
          else 0 := by
  rw [removalEvents, EventLog.count_append]
  congr 1
  · exact EventLog.count_map (by intro item; rfl) _ _
  · exact EventLog.count_map (by intro item; rfl) _ _

/-- The warning about the limit counts for no change. -/
theorem count_limitWarning (method : MethodRef) (limit removals : Nat) {kind : EventKind}
    (change : kind ≠ .warning) : EventLog.count (limitWarning method limit removals) kind = 0 := by
  rw [limitWarning]
  split
  · simp [EventLog.count, Event.about, change.symm]
  · rfl

end Pass

namespace Engine

variable {σ : Type} {settings : Settings} {first group next last : ClassGroup}
  {state nextState lastState : RunState σ} {changed : Bool}

/-- The events of an elimination record what its reports say. -/
theorem count_storeEvents (settings : Settings) (method : MethodRef) {body final : Body}
    {reports : List Report} (census : DeadStore.Census body final reports) {kind : EventKind}
    (change : kind ≠ .warning) :
    EventLog.count (storeEvents settings method final reports) kind =
      (if EventKind.instructionRemoved = kind then (reports.flatMap Report.removed).length else 0) +
        if EventKind.instructionInserted = kind then (reports.flatMap Report.inserted).length
          else 0 := by
  have present := census.inserted
  rw [storeEvents, EventLog.count_append, Pass.count_limitWarning _ _ _ change, Nat.add_zero]
  clear census
  induction reports with
  | nil => simp [EventLog.count]
  | cons report rest ih =>
    have still : (report.inserted.filterMap final.get?).length = report.inserted.length :=
      List.filterMap_length_eq_length.mpr (present report List.mem_cons_self)
    have later := ih fun other member => present other (List.mem_cons_of_mem _ member)
    simp only [List.flatMap_cons, EventLog.count_append, Pass.count_removalEvents, later, still,
      List.length_append]
    split <;> split <;> omega

/-- The log accounts for how a group differs from an earlier one. -/
structure Ledger (settings : Settings) (first group : ClassGroup) (log : EventLog) : Prop where
  fields : EventLog.count log .fieldRemoved + group.fieldCount = first.fieldCount
  methods : EventLog.count log .methodRemoved + group.methodCount = first.methodCount
  /-- Instructions are accounted for unless methods disappear with theirs. -/
  instructions : settings.cleanup.unusedMethods = false →
    first.instructionCount + EventLog.count log .instructionInserted =
      group.instructionCount + EventLog.count log .instructionRemoved

namespace Ledger

/-- At first nothing has changed and nothing is logged. -/
theorem start (settings : Settings) (group : ClassGroup) : Ledger settings group group [] :=
  ⟨Nat.zero_add _, Nat.zero_add _, fun _ => rfl⟩

variable {log : EventLog}

/-- A removal of methods logs as many events as there are methods less. -/
theorem methods_removed (ledger : Ledger settings first group log)
    (asked : settings.cleanup.unusedMethods = true) :
    Ledger settings first (Usage.removeUnusedMethods group).2
      (log ++ (Usage.removeUnusedMethods group).1.map Pass.methodEvent) := by
  have recorded : ∀ kind,
      EventLog.count ((Usage.removeUnusedMethods group).1.map Pass.methodEvent) kind =
        if EventKind.methodRemoved = kind then (Usage.removeUnusedMethods group).1.length else 0 :=
    EventLog.count_map (by intro item; rfl) _
  obtain ⟨_, fewer, sameFields⟩ := Usage.removeUnusedMethods_accounts group
  constructor
  · rw [EventLog.count_append, recorded, sameFields]
    exact ledger.fields
  · have before := ledger.methods
    rw [EventLog.count_append, recorded, if_pos rfl]
    omega
  · intro unasked
    rw [asked] at unasked
    cases unasked

/-- A removal of fields logs as many events as there are fields less. -/
theorem fields_removed (ledger : Ledger settings first group log) :
    Ledger settings first (Usage.removeUnusedFields group).2
      (log ++ (Usage.removeUnusedFields group).1.map
        (Pass.fieldEvent (Usage.usedFields group).length)) := by
  have recorded : ∀ kind, EventLog.count ((Usage.removeUnusedFields group).1.map
        (Pass.fieldEvent (Usage.usedFields group).length)) kind =
      if EventKind.fieldRemoved = kind then (Usage.removeUnusedFields group).1.length else 0 :=
    EventLog.count_map (by intro item; rfl) _
  obtain ⟨same, fewer⟩ := Usage.removeUnusedFields_accounts group
  constructor
  · have before := ledger.fields
    rw [EventLog.count_append, recorded, if_pos rfl]
    omega
  · rw [EventLog.count_append, recorded, ClassGroup.methodCount_eq, same,
      ← ClassGroup.methodCount_eq]
    exact ledger.methods
  · intro unasked
    have sameOps : (Usage.removeUnusedFields group).2.ops = group.ops := by
      rw [ClassGroup.ops_eq, same, ← ClassGroup.ops_eq]
    have sameCount : (Usage.removeUnusedFields group).2.instructionCount =
        group.instructionCount := congrArg List.length sameOps
    rw [EventLog.count_append, EventLog.count_append, recorded, recorded, sameCount]
    exact ledger.instructions unasked

/-- An elimination logs what it removed and what it inserted, and the instructions change by the
difference. -/
theorem stores_removed {site : Site} {method : MethodDecl} {final : Body} {reports : List Report}
    (ledger : Ledger settings first (site.hold [method]) log)
    (eliminated : DeadStore.eliminate site.owner method settings.maxRemovals =
      .ok (some (final, reports))) :
    Ledger settings first (site.hold [{ method with body := some final }])
      (log ++ storeEvents settings (method.reference site.owner) final reports) := by
  obtain ⟨_, body, _, _, _, given, _, census, -⟩ := DeadStore.eliminate_census eliminated
  have recorded := fun kind (change : kind ≠ EventKind.warning) =>
    count_storeEvents settings (method.reference site.owner) census change
  constructor
  · rw [EventLog.count_append, recorded _ (by decide), site.fieldCount_hold _ [method]]
    exact ledger.fields
  · have before := ledger.methods
    rw [site.methodCount_hold] at before
    rw [EventLog.count_append, recorded _ (by decide), site.methodCount_hold]
    exact before
  · intro unasked
    have before := ledger.instructions unasked
    have size := census.size
    have shift := site.instructionCount_hold method { method with body := some final }
    have opsBefore : method.ops.length = body.size := by
      simp [MethodDecl.ops, given, Body.size]
    have opsAfter : ({ method with body := some final } : MethodDecl).ops.length =
        final.size := by
      simp [MethodDecl.ops, Body.size]
    rw [EventLog.count_append, EventLog.count_append, recorded _ (by decide),
      recorded _ (by decide)]
    simp only [reduceCtorEq, if_false, if_true]
    omega

/-- A warning accounts for nothing. -/
theorem warned (ledger : Ledger settings first group log) {event : Event}
    (warning : event.kind = .warning) : Ledger settings first group (log ++ [event]) := by
  have unrecorded : ∀ kind, kind ≠ EventKind.warning →
      EventLog.count (log ++ [event]) kind = EventLog.count log kind := by
    intro kind change
    simp [EventLog.count, warning, change.symm]
  constructor
  · rw [unrecorded _ (by decide)]
    exact ledger.fields
  · rw [unrecorded _ (by decide)]
    exact ledger.methods
  · rw [unrecorded _ (by decide), unrecorded _ (by decide)]
    exact ledger.instructions

/-- Every edit is recorded. -/
theorem edit (ledger : Ledger settings first group state.events)
    (edit : Edit settings group state next nextState changed) :
    Ledger settings first next nextState.events := by
  cases edit with
  | methods asked => exact ledger.methods_removed asked
  | fields => exact ledger.fields_removed
  | stores eliminated => exact ledger.stores_removed eliminated
  | failure => exact ledger.warned rfl

/-- Every edit of a run is recorded. -/
theorem edits (ledger : Ledger settings first group state.events)
    (edits : Edits settings group state last lastState changed) :
    Ledger settings first last lastState.events :=
  edits.keeps (motive := fun group state => Ledger settings first group state.events)
    (fun edit ledger => ledger.edit edit) ledger

end Ledger

/-- The log of a run that succeeds accounts exactly for what changed, in whatever order the classes
were visited: it has one event for each field and each method that the group lost, and, where
unused methods are kept, the instructions before together with those inserted are as many as the
instructions that are left together with those removed. -/
theorem process_tally (settings : Settings) (schedule : Schedule) (group : ClassGroup) (memory : σ)
    (account : Account)
    (succeeded : ((ofSettings settings).process schedule group memory).verdict = .ok account) :
    account.tally.fieldsRemoved +
        ((ofSettings settings).process schedule group memory).subject.fieldCount =
          group.fieldCount ∧
      account.tally.methodsRemoved +
        ((ofSettings settings).process schedule group memory).subject.methodCount =
          group.methodCount ∧
      (settings.cleanup.unusedMethods = false →
        group.instructionCount + account.tally.instructionsInserted =
          ((ofSettings settings).process schedule group memory).subject.instructionCount +
            account.tally.instructionsRemoved) := by
  obtain ⟨rounds, ran, rfl⟩ := exists_of_map_eq_ok succeeded
  obtain ⟨changed, edits⟩ := Edits.runRounds (fun _ => chosen_of_mem_passes) ran
  obtain ⟨fields, methods, instructions⟩ := (Ledger.start settings group).edits edits
  exact ⟨fields, methods, instructions⟩

/-- The descriptor of methods that take and return nothing. -/
def toNothing : MethodDescriptor :=
  ⟨"()V", ⟨[], none⟩, by decide +kernel⟩

/-- A method that stores a quotient where nobody reads it. -/
def storeQuotient : MethodDecl where
  name := "store"
  descriptor := toNothing
  access := 8
  body := some (.ofPlaced 1 [(.ldc (.int 6), 0), (.ldc (.int 3), 2), (.arith .div .int, 4),
    (.store .int 0, 5), (.ret none, 6)])

/-- A class with a field that nobody reads and a method that stores a quotient. -/
def workshop : ClassGroup :=
  ⟨[⟨"Workshop", some "java/lang/Object", [], 1, [⟨"spare", ⟨"I", .int, by decide +kernel⟩, 2⟩],
    [storeQuotient]⟩]⟩

/-- The field goes, and an instruction that discards the quotient takes the place of the
store, so there are as many instructions as before. -/
theorem process_tally_workshop :
    ∃ account, ((ofSettings {}).process .loadOrder workshop ()).verdict = .ok account ∧
      account.tally = ⟨1, 0, 1, 1, 0⟩ ∧
      ((ofSettings {}).process .loadOrder workshop ()).subject.fieldCount = 0 ∧
      ((ofSettings {}).process .loadOrder workshop ()).subject.methodCount = 1 ∧
      ((ofSettings {}).process .loadOrder workshop ()).subject.instructionCount = 5 := by
  have tallied : ((ofSettings {}).process .loadOrder workshop ()).verdict.map Account.tally =
      .ok ⟨1, 0, 1, 1, 0⟩ := by cbv
  obtain ⟨account, succeeded, tally⟩ := exists_of_map_eq_ok tallied
  obtain ⟨fields, methods, instructions⟩ :=
    process_tally {} .loadOrder workshop () account succeeded
  have before : workshop.fieldCount = 1 ∧ workshop.methodCount = 1 ∧
      workshop.instructionCount = 5 := ⟨rfl, rfl, rfl⟩
  have balance := instructions rfl
  simp only [tally] at fields methods balance
  refine ⟨account, succeeded, tally, ?_, ?_, ?_⟩
  · omega
  · omega
  · omega

end Engine

end ClassTrim
