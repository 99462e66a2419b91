import ClassTrim.Proofs.Machine.Integers
import ClassTrim.Proofs.Machine.Semantics

/-!
# Linear runs on concrete values

A linear run takes the instructions of a body in order, each once, on a stack and on local
slots that hold concrete values. Branches, returns and throws take their operands, and the run
goes on behind them. Everything that a body does not decide is left open: what the method
receives, what field reads, calls and allocations yield, what floating-point arithmetic and
arithmetic on operands of other types yield, and what a load finds in a slot that holds nothing
of its kind. There the run may take any value whatsoever. Integer arithmetic on operands of its
own type has the result that it has, and a division by zero has none: the run ends before it.

Since a value that is left open may be of any type, the kind of a cell is not read off its
value. It is the kind that the instruction declares for what it makes, and it decides how many
local slots the cell fills.
-/

namespace ClassTrim.Linear

open Machine (Value)

/-- A concrete value, and the kind that the instruction that made it declares for it. -/
structure Cell where
  value : Value
  kind : LocalKind
deriving DecidableEq

namespace Cell

/-- A constant under its own kind. -/
def ofConstant (literal : Constant) : Cell :=
  ⟨.constant literal, literal.type.kind⟩

/-- The number in a cell that holds an integer of a kind and is declared to. -/
def number? (kind : NumericKind) (cell : Cell) : Option Int :=
  match kind, cell with
  | .int, ⟨.constant (.int number), .int⟩ => some number.toInt
  | .long, ⟨.constant (.long number), .long⟩ => some number.toInt
  | _, _ => none

end Cell

/-- The local slots of a run. -/
abbrev Slots := Nat → Option Cell

/-- Stores a cell in a slot. Writing over either half of a wide cell destroys it, and a wide
cell also empties the slot above. -/
def Slots.write (slots : Slots) (index : Nat) (cell : Cell) : Slots := fun place =>
  if place = index then some cell
  else if cell.kind.isWide && place = index + 1 then none
  else if place + 1 = index && (slots place).any (·.kind.isWide) then none
  else slots place

/-- The numbers that integer arithmetic of a kind works on, the top of the stack first, if the
operands have the types that it asks for. Negation has one operand, and a shift takes its count
as an `int`. -/
def numbers? (operation : ArithOp) (kind : NumericKind) (operands : List Cell) :
    Option (Int × Int) :=
  match operands with
  | [right] => if operation = .neg then (right.number? kind).map (0, ·) else none
  | [right, left] => do
    let first ← left.number? kind
    let second ← right.number? (if operation.isShift then .int else kind)
    some (first, second)
  | _ => none

/-- What arithmetic makes of operands that have the types it asks for, of which division by
zero makes nothing. Other operands, and floating-point arithmetic, decide nothing. -/
def integral? (operation : ArithOp) (kind : NumericKind) (operands : List Cell) :
    Option (Option Constant) :=
  match kind with
  | .int => (numbers? operation .int operands).map fun numbers =>
    (Integers.compute 32 operation numbers.1 numbers.2).map fun number => .int (.ofInt number)
  | .long => (numbers? operation .long operands).map fun numbers =>
    (Integers.compute 64 operation numbers.1 numbers.2).map fun number => .long (.ofInt number)
  | .float | .double => none

/-- The cells that an operation may make of its operands, the top of the stack first. -/
def Makes (slots : Slots) (op : Op) (operands made : List Cell) : Prop :=
  match op with
  | .aconstNull => made = [⟨.null, .reference⟩]
  | .ldc literal => made = [.ofConstant literal]
  | .load kind index => ∃ value, made = [⟨value, kind⟩] ∧
    ∀ cell, slots index.toNat = some cell → cell.kind = kind → value = cell.value
  | .arith operation kind => ∃ value, made = [⟨value, kind.type.kind⟩] ∧
    ∀ result, integral? operation kind operands = some result →
      result.map Value.constant = some value
  | .dup | .dup2 => ∃ copied rest, operands = copied :: rest ∧ made = [copied, copied]
  | .new _ => ∃ value, made = [⟨value, .reference⟩]
  | .field .getField target | .field .getStatic target =>
    ∃ value, made = [⟨value, target.type.kind⟩]
  | .invoke _ target => made.map Cell.kind = target.descriptor.result.toList.map StackType.kind
  | _ => made = []

/-- What an operation does to the slots. -/
def stored (slots : Slots) (op : Op) (operands : List Cell) : Slots :=
  match op, operands with
  | .store _ index, cell :: _ => slots.write index.toNat cell
  | _, _ => slots

/-- The state of a run between two instructions. -/
structure Snapshot where
  /-- The cells on the stack, the top first. -/
  stack : List Cell
  slots : Slots
  /-- Every cell that was made so far, the oldest first. -/
  made : List Cell

/-- The state of a run before the first instruction. -/
def Snapshot.enter (slots : Slots) : Snapshot :=
  ⟨[], slots, []⟩

/-- The operands that an instruction finds on the stack. -/
def Snapshot.operands (snapshot : Snapshot) (instruction : Instruction) : List Cell :=
  snapshot.stack.take instruction.op.effect.pops

/-- One instruction of a run. -/
inductive Step (instruction : Instruction) (before : Snapshot) : Snapshot → Prop
  | intro (enough : instruction.op.effect.pops ≤ before.stack.length) (made : List Cell)
      (makes : Makes before.slots instruction.op (before.operands instruction) made) :
      Step instruction before
        ⟨made.reverse ++ before.stack.drop instruction.op.effect.pops,
          stored before.slots instruction.op (before.operands instruction), before.made ++ made⟩

/-- A run through instructions, to the end of them. -/
inductive Walk : List Instruction → Snapshot → Snapshot → Prop
  | done (snapshot : Snapshot) : Walk [] snapshot snapshot
  | step {instruction : Instruction} {rest : List Instruction} {before next after : Snapshot}
      (first : Step instruction before next) (others : Walk rest next after) :
      Walk (instruction :: rest) before after

end ClassTrim.Linear
