import ClassTrim.Provenance.Value

/-!
# Folding integer arithmetic

Arithmetic on known `int` and `long` operands is computed. Results wrap around at
32 and 64 bits; division rounds toward zero; a shift takes its count modulo the
width of the shifted word. A division by zero and all floating-point arithmetic
stay unknown.
-/

namespace ClassTrim.Simulation

/-- The result of an `int` operation, of which division by zero has none. -/
def foldInt (operation : ArithOp) (left right : Int32) : Option Int32 :=
  match operation with
  | .add => some (left + right)
  | .sub => some (left - right)
  | .mul => some (left * right)
  | .div => if right = 0 then none else some (left / right)
  | .rem => if right = 0 then none else some (left % right)
  | .neg => some (-right)
  | .shl => some (left <<< right)
  | .shr => some (left >>> right)
  | .ushr => some (left.toUInt32 >>> right.toUInt32).toInt32
  | .and => some (left &&& right)
  | .or => some (left ||| right)
  | .xor => some (left ^^^ right)

/-- The result of a `long` operation on two `long` operands. Shifts are none. -/
def foldLong (operation : ArithOp) (left right : Int64) : Option Int64 :=
  match operation with
  | .add => some (left + right)
  | .sub => some (left - right)
  | .mul => some (left * right)
  | .div => if right = 0 then none else some (left / right)
  | .rem => if right = 0 then none else some (left % right)
  | .neg => some (-right)
  | .and => some (left &&& right)
  | .or => some (left ||| right)
  | .xor => some (left ^^^ right)
  | .shl | .shr | .ushr => none

/-- The result of shifting a `long` by an `int` count. -/
def foldLongShift (operation : ArithOp) (left : Int64) (count : Int32) : Option Int64 :=
  match operation with
  | .shl => some (left <<< count.toInt64)
  | .shr => some (left >>> count.toInt64)
  | .ushr => some (left.toUInt64 >>> count.toInt64.toUInt64).toInt64
  | _ => none

/-- Folds an `int` operation. Negation has a right operand only. -/
def foldIntValues (operation : ArithOp) (left : Option AbstractValue) (right : AbstractValue) :
    Option Int32 := do
  let second ← right.int?
  if operation = .neg then foldInt .neg 0 second
  else foldInt operation (← left.bind AbstractValue.int?) second

/-- Folds a `long` operation. Negation has a right operand only, and the right
operand of a shift is an `int`. -/
def foldLongValues (operation : ArithOp) (left : Option AbstractValue) (right : AbstractValue) :
    Option Int64 := do
  if operation.isShift then
    let count ← right.int?
    foldLongShift operation (← left.bind AbstractValue.long?) count
  else
    let second ← right.long?
    if operation = .neg then foldLong .neg 0 second
    else foldLong operation (← left.bind AbstractValue.long?) second

/-- What is known about the result of an arithmetic operation. -/
def fold (operation : ArithOp) (kind : NumericKind) (left : Option AbstractValue)
    (right : AbstractValue) : AbstractValue :=
  match kind with
  | .int => ((foldIntValues operation left right).map (.constant <| .int ·)).getD .unknown
  | .long => ((foldLongValues operation left right).map (.constant <| .long ·)).getD .unknown
  | .float | .double => .unknown

end ClassTrim.Simulation
