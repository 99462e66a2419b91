import ClassTrim.Proofs.Machine.Semantics
import ClassTrim.Proofs.Simulation.Execution

/-!
# The machine and the simulation agree on kinds

A simulation knows the type of every value, and the kind of a value is decided by its
type. Values of the same kinds are made by the machine and by the simulation, and written
to the same slots, as long as every load finds a slot of a fitting type.
-/

namespace ClassTrim

/-- A type and its kind are equally wide. -/
theorem StackType.isWide_kind (type : StackType) : type.kind.isWide = type.isWide := by
  cases type <;> rfl

/-- A load may read the slots that hold a value of its kind. -/
theorem LocalKind.fits_iff {kind : LocalKind} {type : StackType} :
    kind.fits type = true ↔ type.kind = kind := by
  cases kind <;> cases type <;> simp [LocalKind.fits, StackType.kind, StackType.isReference]

namespace Locals

/-- New slots are empty, so nothing that is read changes. -/
theorem read_grow (locals : Locals) (count place : Nat) :
    (locals.grow count).read place = locals.read place := by
  simp only [read, grow, Array.getElem?_append]
  split
  · rfl
  · next outside =>
    have missing : locals.slots[place]? = none := by simpa using outside
    rw [missing, Array.getElem?_replicate]
    split <;> rfl

/-- Setting a slot shows in this slot only. -/
theorem read_put {locals : Locals} {index : Nat} (bound : index < locals.slots.size)
    (slot : Option Slot) (place : Nat) :
    (locals.put index slot).read place = if place = index then slot else locals.read place := by
  simp only [read, put, Array.getElem?_setIfInBounds]
  by_cases same : index = place
  · subst same
    simp [bound]
  · simp [same, Ne.symm same]

/-- A wide value stands in a slot that exists. -/
theorem lt_size_of_isWideAt {locals : Locals} {index : Nat}
    (wide : locals.isWideAt index = true) : index < locals.slots.size := by
  apply Classical.byContradiction
  intro outside
  have missing : locals.slots[index]? = none := by simpa using outside
  simp [isWideAt, read, missing] at wide

/-- Cutting empties the slot below if a wide value stands in it, and nothing else. -/
theorem read_cutBelow (locals : Locals) (index place : Nat) :
    (locals.cutBelow index).read place =
      if place + 1 = index && locals.isWideAt place then none else locals.read place := by
  cases index with
  | zero => simp [cutBelow]
  | succ below =>
    simp only [cutBelow]
    by_cases wide : locals.isWideAt below = true
    · rw [if_pos wide, read_put (lt_size_of_isWideAt wide)]
      by_cases same : place = below
      · simp [same, wide]
      · simp [same]
    · rw [if_neg wide]
      by_cases same : place = below
      · simp [same, wide]
      · simp [same]

/-- Cutting keeps the number of slots. -/
theorem size_cutBelow (locals : Locals) (index : Nat) :
    (locals.cutBelow index).slots.size = locals.slots.size := by
  cases index with
  | zero => rfl
  | succ below =>
    simp only [cutBelow]
    split
    · simp [put]
    · rfl

/-- After growing there are as many slots as asked for. -/
theorem le_size_grow (locals : Locals) (count : Nat) : count ≤ (locals.grow count).slots.size := by
  simp only [grow, Array.size_append, Array.size_replicate]
  omega

/-- What a slot holds after a write. -/
theorem read_write (locals : Locals) (index : Nat) (slot : Slot) (place : Nat) :
    (locals.write index slot).read place =
      if place = index then some slot
      else if slot.content.type.isWide && place = index + 1 then none
      else if place + 1 = index && locals.isWideAt place then none
      else locals.read place := by
  have size := le_size_grow locals (index + slot.content.type.slots)
  have cut := size_cutBelow (locals.grow (index + slot.content.type.slots)) index
  have sameWide : (locals.grow (index + slot.content.type.slots)).isWideAt place =
      locals.isWideAt place := by
    rw [isWideAt, read_grow, isWideAt]
  unfold write
  by_cases wide : slot.content.type.isWide = true
  · have two : slot.content.type.slots = 2 := by simp [StackType.slots, wide]
    rw [two] at size cut sameWide
    simp only [wide, if_true, two]
    rw [read_put (by simp only [put, Array.size_setIfInBounds]; omega), read_put (by omega),
      read_cutBelow, read_grow, sameWide]
    by_cases isHere : place = index <;> simp [isHere]
  · have one : slot.content.type.slots = 1 := by simp [StackType.slots, wide]
    rw [one] at size cut sameWide
    simp only [wide, one]
    rw [read_put (by simp only [Bool.false_eq_true, if_false]; omega)]
    simp [read_cutBelow, read_grow, sameWide]

end Locals

/-- Whether a load finds a slot of a fitting type. Other operations do not look for one. -/
def Op.finds (locals : Locals) : Op → Bool
  | .load kind index => (locals.read index.toNat).any (kind.fits ·.content.type)
  | _ => true

namespace Machine

variable {world : World} {locals : Locals} {slots : Slots}

/-- The slots of the machine hold values of the kinds that the simulation knows. -/
def Agree (locals : Locals) (slots : Slots) : Prop :=
  ∀ place, (slots place).map Value.kind = (locals.read place).map (·.content.type.kind)

/-- A machine enters a frame with values of the kinds that the frame knows. -/
theorem Agree.enter (world : World) (frame : Frame) : Agree frame.locals (world.enter frame) := by
  intro place
  simp only [World.enter, Option.map_map]
  congr 1
  funext slot
  exact (world.parameter place slot.content.type.kind).property

/-- Slots that agree hold wide values in the same places. -/
theorem Agree.isWide (agree : Agree locals slots) (place : Nat) :
    (slots place).any Value.isWide = locals.isWideAt place := by
  have same := congrArg (Option.any LocalKind.isWide) (agree place)
  simp only [Option.any_map, StackType.isWide_kind] at same
  exact same

/-- A value and a slot of one kind may be written in the same place. -/
theorem Agree.write (agree : Agree locals slots) (index : Nat) {slot : Slot} {value : Value}
    (same : value.kind = slot.content.type.kind) :
    Agree (locals.write index slot) (slots.write index value) := by
  have sameWidth : value.isWide = slot.content.type.isWide := by
    rw [Value.isWide, same, StackType.isWide_kind]
  intro place
  simp only [Locals.read_write, Slots.write, sameWidth, agree.isWide]
  split
  · simp [same]
  · split
    · rfl
    · split
      · rfl
      · exact agree place

/-- Arithmetic on constants yields a constant of the kind of the operation. -/
theorem kind_of_fold {operation : ArithOp} {kind : NumericKind} {left : Option AbstractValue}
    {right : AbstractValue} {literal : Constant}
    (folded : Simulation.fold operation kind left right = .constant literal) :
    literal.type.kind = kind.type.kind := by
  cases kind with
  | int =>
    simp only [Simulation.fold] at folded
    cases result : Simulation.foldIntValues operation left right with
    | none => simp [result] at folded
    | some number =>
      simp only [result, Option.map_some, Option.getD_some, AbstractValue.constant.injEq] at folded
      rw [← folded]
      rfl
  | long =>
    simp only [Simulation.fold] at folded
    cases result : Simulation.foldLongValues operation left right with
    | none => simp [result] at folded
    | some number =>
      simp only [result, Option.map_some, Option.getD_some, AbstractValue.constant.injEq] at folded
      rw [← folded]
      rfl
  | float | double => cases folded

/-- The result of an arithmetic operation is of the kind of the operation. -/
theorem kind_arithmetic (world : World) (operation : ArithOp) (kind : NumericKind)
    (operands : List Value) :
    (arithmetic world operation kind operands).kind = kind.type.kind := by
  unfold arithmetic
  split
  · split
    · next folded => exact kind_of_fold folded
    · exact (world.compute operation kind _).property
  · exact (world.compute operation kind _).property

section Operation

variable {op : Op} {operands : List Value} {contents : List Content}

/-- As many operands as contents, since their kinds match one by one. -/
theorem length_of_kinds (same : operands.map Value.kind = contents.map (·.type.kind)) :
    operands.length = contents.length := by
  simpa using congrArg List.length same

/-- The machine makes values of the kinds that the simulation makes. -/
theorem map_kind_results (agree : Agree locals slots) (count : Nat)
    (same : operands.map Value.kind = contents.map (·.type.kind))
    (enough : contents.length = op.effect.pops) (found : op.finds locals = true) :
    (results world count slots op operands).map Value.kind =
      (Simulation.results op locals contents).map (·.type.kind) := by
  cases op with
  | load kind index =>
    simp only [Op.finds, Option.any_eq_true] at found
    obtain ⟨slot, there, fits⟩ := found
    have known : Simulation.loaded locals kind index = slot.content := by
      simp [Simulation.loaded, there, fits]
    have held := agree index.toNat
    rw [there, Option.map_some] at held
    obtain ⟨value, present, sameKind⟩ := Option.map_eq_some_iff.mp held
    simp [results, Simulation.results, known, present, sameKind]
  | arith operation kind =>
    cases contents with
    | nil => cases operation <;> simp [Op.effect, ArithOp.operands] at enough
    | cons right left => simp [results, Simulation.results, kind_arithmetic]
  | dup | dup2 =>
    cases contents with
    | nil => simp [Op.effect] at enough
    | cons copied rest =>
      cases operands with
      | nil => cases same
      | cons value others =>
        have sameKind := (List.cons.inj same).1
        simp [results, Simulation.results, sameKind]
  | new name => simp [results, Simulation.results, (world.yield count .reference).property,
      Content.unknown, StackType.kind]
  | field access target =>
    cases access <;> simp [results, Simulation.results, Content.unknown,
      (world.yield count target.type.kind).property]
  | invoke kind target =>
    simp only [results, Simulation.results, List.map_map]
    apply List.map_congr_left
    intro type _
    exact (world.yield count type.kind).property
  | _ => rfl

/-- The machine finds what the simulation finds. -/
theorem permits_of_kinds (agree : Agree locals slots)
    (same : operands.map Value.kind = contents.map (·.type.kind))
    (enough : contents.length = op.effect.pops) (found : op.finds locals = true)
    (wide : op.needsWideTop = true → ∀ content ∈ contents, content.type.isWide = true) :
    permits slots op operands = true := by
  have length : operands.length = op.effect.pops := (length_of_kinds same).trans enough
  have wideOperands : (!op.needsWideTop || operands.all Value.isWide) = true := by
    cases needed : op.needsWideTop with
    | false => rfl
    | true =>
      simp only [Bool.not_true, Bool.false_or, List.all_eq_true]
      intro value member
      have kind : value.kind ∈ operands.map Value.kind := List.mem_map_of_mem member
      rw [same] at kind
      obtain ⟨content, inside, sameKind⟩ := List.mem_map.mp kind
      rw [Value.isWide, ← sameKind, StackType.isWide_kind]
      exact wide needed content inside
  simp only [permits, length, decide_true, wideOperands, Bool.and_true, Bool.true_and]
  split
  · next kind index =>
    simp only [Op.finds, Option.any_eq_true] at found
    obtain ⟨slot, there, fits⟩ := found
    have held := agree index.toNat
    rw [there, Option.map_some] at held
    obtain ⟨value, present, sameKind⟩ := Option.map_eq_some_iff.mp held
    rw [LocalKind.fits_iff.mp fits] at sameKind
    simp [present, sameKind]
  · rfl

end Operation

end Machine

end ClassTrim
