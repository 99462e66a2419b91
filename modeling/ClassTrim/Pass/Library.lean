import ClassTrim.DeadStore
import ClassTrim.Pass
import ClassTrim.Usage.Fields
import ClassTrim.Usage.Methods

/-!
# The passes of the library

Three passes: unused methods, unused fields, and dead stores. Each records one
event for each thing that it removes or inserts, and records nothing if it fails.
-/

namespace ClassTrim.Pass

variable {σ : Type}

/-- The events of one removal. An inserted instruction that the finished body no
longer has is not reported. -/
def removalEvents (method : MethodRef) (body : Body) (report : Report) : EventLog :=
  report.removed.map (fun instruction =>
      Event.inside .instructionRemoved method instruction.pc instruction.op.render) ++
    (report.inserted.filterMap body.get?).map fun instruction =>
      Event.inside .instructionInserted method instruction.pc instruction.op.render

/-- The warning that an elimination stopped at its limit. -/
def limitWarning (method : MethodRef) (limit removals : Nat) : EventLog :=
  if limit ≤ removals then
    [Event.about .warning method ("stopped after " ++ Nat.repr limit ++ " removals")]
  else []

/-- Eliminates the dead stores of one method. -/
def eliminateStores (settings : Settings) (owner : String) (method : MethodDecl) :
    RunStep σ (Option MethodDecl) := fun state =>
  match DeadStore.eliminate owner method settings.maxRemovals with
  | .error fault => (.error fault, state)
  | .ok none => (.ok none, state)
  | .ok (some (body, reports)) =>
    let reference := method.reference owner
    let events := reports.flatMap (removalEvents reference body) ++
      limitWarning reference settings.maxRemovals reports.length
    (.ok (some { method with body := some body }),
      (state.markModified reference).record events)

/-- Removes stores and pops that nothing observes. -/
def deadStores : Pass σ where
  name := "dead-stores"
  description := "Removes stores and pops whose values are never observed"
  accepts _ method := method.body.any (!·.hasBranches)
  onMethod := eliminateStores

/-- The event of a removed field, with the number of fields in use. -/
def fieldEvent (usedCount : Nat) (field : FieldRef) : Event :=
  { kind := .fieldRemoved
    message := field.render ++ " (" ++ Nat.repr usedCount ++ " used fields)" }

/-- Removes fields that no instruction reaches. -/
def unusedFields : Pass σ where
  name := "unused-fields"
  description := "Removes fields that no instruction reads or writes"
  isGlobal := true
  accepts _ _ := false
  onMethod _ _ _ := .idle none
  onGroup _ group state :=
    let used := Usage.usedFields group
    let (removed, changed) := Usage.removeFields group used
    if removed.isEmpty then (.ok none, state)
    else (.ok (some changed), state.record (removed.map (fieldEvent used.length)))

/-- The event of a removed method. -/
def methodEvent (method : MethodRef) : Event :=
  Event.about .methodRemoved method (method.render ++ " is never invoked")

/-- Removes methods that no call reaches. -/
def unusedMethods : Pass σ where
  name := "unused-methods"
  description := "Removes methods that are never invoked and are not entry points"
  isGlobal := true
  accepts _ _ := false
  onMethod _ _ _ := .idle none
  onGroup _ group state :=
    let (removed, changed) := Usage.removeUnusedMethods group
    if removed.isEmpty then (.ok none, state)
    else (.ok (some changed), state.record (removed.map methodEvent))

end ClassTrim.Pass
