import Mathlib.Data.List.Flatten
import ClassTrim.Proofs.DeadStore.Census
import ClassTrim.Proofs.Engine.Edits
import ClassTrim.Proofs.Usage.Methods

/-!
# Rounds run out

A group weighs as much as it has fields, methods, and instructions that do more than to
discard a value. Every edit that changes a group makes it lighter, whatever the edit inserts.
So only so many rounds can change anything, and one more finds that nothing is left to do.
-/

namespace ClassTrim

namespace ClassGroup

/-- The number of instructions that do more than to discard a value. -/
def work (group : ClassGroup) : Nat :=
  group.ops.countP (!·.isDiscard)

/-- What changes can take away. -/
def weight (group : ClassGroup) : Nat :=
  group.fieldCount + group.methodCount + group.work

/-- The weight is at most the number of fields, methods and instructions. -/
theorem weight_le (group : ClassGroup) :
    group.weight ≤ group.fieldCount + group.methodCount + group.instructionCount :=
  Nat.add_le_add_left List.countP_le_length _

end ClassGroup

/-- Changing one method changes the work of a group by as much as its own. -/
theorem Site.work_hold (site : Site) (old new : MethodDecl) :
    (site.hold [new]).work + old.ops.countP (!·.isDiscard) =
      (site.hold [old]).work + new.ops.countP (!·.isDiscard) := by
  simp only [ClassGroup.work, ops_hold, List.countP_append, List.flatMap_singleton]
  omega

/-- The work of a method is that of its body. -/
theorem MethodDecl.countP_ops {method : MethodDecl} {body : Body}
    (given : method.body = some body) :
    method.ops.countP (!·.isDiscard) = body.work := by
  simp [ops, given, Body.work, List.countP_map, Function.comp_def]

namespace Engine

variable {σ : Type} {settings : Settings} {group next last : ClassGroup}
  {state nextState lastState : RunState σ} {changed : Bool}

/-- An edit that changes a group makes it lighter. -/
theorem Edit.weight (edit : Edit settings group state next nextState changed) :
    next.weight + changed.toNat ≤ group.weight := by
  cases edit with
  | methods asked found =>
    obtain ⟨fewer, count, sameFields⟩ := Usage.removeUnusedMethods_accounts group
    have atLeastOne := List.length_pos_iff.mpr found
    have work : (Usage.removeUnusedMethods group).2.work ≤ group.work := by
      rw [ClassGroup.work, ClassGroup.work, ClassGroup.ops_eq, ClassGroup.ops_eq]
      exact (fewer.flatMap _).countP_le
    simp only [ClassGroup.weight, sameFields, Bool.toNat_true]
    omega
  | fields found =>
    obtain ⟨same, count⟩ := Usage.removeUnusedFields_accounts group
    have atLeastOne := List.length_pos_iff.mpr found
    simp only [ClassGroup.weight, ClassGroup.methodCount_eq, ClassGroup.work, ClassGroup.ops_eq,
      same, Bool.toNat_true]
    omega
  | @stores site method _ final reports eliminated =>
    obtain ⟨_, body, _, _, _, given, _, census, removes, -⟩ :=
      DeadStore.eliminate_census eliminated
    have shift := site.work_hold method { method with body := some final }
    rw [MethodDecl.countP_ops given, MethodDecl.countP_ops rfl] at shift
    have sameFields := site.fieldCount_hold [{ method with body := some final }] [method]
    have atLeastOne := List.length_pos_iff.mpr removes
    have less := census.work
    simp only [ClassGroup.weight, site.methodCount_hold, List.length_singleton, sameFields,
      Bool.toNat_true]
    omega
  | failure => exact Nat.le_refl _

/-- Edits that change a group make it lighter. -/
theorem Edits.weight (edits : Edits settings group state last lastState changed) :
    last.weight + changed.toNat ≤ group.weight := by
  induction edits with
  | done => exact Nat.le_refl _
  | @step _ _ _ _ _ _ first later edit _ ih =>
    have now := edit.weight
    have both : (first || later).toNat ≤ first.toNat + later.toNat := by
      cases first <;> cases later <;> decide
    omega

/-- Not more rounds are made than the group can lose weight, and one that changes
nothing. -/
theorem runRounds_le {passes : List (Pass σ)} (chosen : ∀ pass ∈ passes, Chosen settings pass)
    {schedule : Schedule} {finished rounds made : Nat}
    (ran : (Pipeline.runRounds settings passes schedule finished rounds group state).verdict =
      .ok made) :
    made ≤ finished + 1 + group.weight := by
  induction rounds generalizing finished group state with
  | zero =>
    cases ran
    omega
  | succ rounds ih =>
    simp only [Pipeline.runRounds, runRound_eq chosen] at ran
    split at ran
    · cases ran
    · cases ran
      omega
    · next goesOn =>
      have lighter := (Edits.runPasses chosen goesOn).weight
      have later := ih ran
      rw [Bool.toNat_true] at lighter
      omega

end Engine

end ClassTrim
