import ClassTrim.Frame
import ClassTrim.Simulation.Fold

/-!
# A concrete machine for straight-line bodies

The machine runs instructions in order on a stack of concrete values and on local slots.
It stops at the first return, at the first throw, at the first division of integers by
zero, or at the end of the body. Everything that the body does not decide comes from a
world: what the method receives, what field reads, calls and allocations yield, and what
arithmetic yields that is not integer arithmetic. Yields are asked for by the number of
observed operations that came before.

What can be observed of a run is its trace, which lists every observed operation with its
operands, and the way in which it ended. A load from a slot that holds nothing of its kind,
a missing operand, and a narrow operand of an instruction that takes wide ones stop the
machine too; then it is stuck.
-/

namespace ClassTrim

/-- The kind of the values of a type. -/
def StackType.kind : StackType → LocalKind
  | .int => .int
  | .long => .long
  | .float => .float
  | .double => .double
  | .ref _ | .null => .reference

namespace Machine

/-- A concrete value. Objects are told apart by numbers. -/
inductive Value where
  | null
  | constant (literal : Constant)
  | object (number : Nat)
deriving DecidableEq

namespace Value

/-- The kind of a value. -/
def kind : Value → LocalKind
  | .null | .object _ => .reference
  | .constant literal => literal.type.kind

/-- Whether a value fills two local slots. -/
def isWide (value : Value) : Bool :=
  value.kind.isWide

/-- Whether a value is the integer zero, in either width. -/
def isZero : Value → Bool
  | .constant (.int number) => number = 0
  | .constant (.long number) => number = 0
  | _ => false

/-- What arithmetic may use of a value. -/
def known : Value → AbstractValue
  | .constant literal => .constant literal
  | _ => .unknown

end Value

/-- A value of a kind. -/
abbrev ValueOf (kind : LocalKind) := { value : Value // value.kind = kind }

/-- What a body does not decide. -/
structure World where
  /-- What the method receives in a slot. -/
  parameter : Nat → (kind : LocalKind) → ValueOf kind
  /-- What an operation yields, by the number of observations before it. -/
  yield : Nat → (kind : LocalKind) → ValueOf kind
  /-- Arithmetic other than on two integers. -/
  compute : ArithOp → (kind : NumericKind) → List Value → ValueOf kind.type.kind

/-- The local slots of the machine. -/
abbrev Slots := Nat → Option Value

/-- Stores a value in a slot. Writing over either half of a wide value destroys it, and a
wide value also empties the slot above. -/
def Slots.write (slots : Slots) (index : Nat) (value : Value) : Slots := fun place =>
  if place = index then some value
  else if value.isWide && place = index + 1 then none
  else if place + 1 = index && (slots place).any Value.isWide then none
  else slots place

/-- The slots in which a method begins: a value for each slot that its frame fills. -/
def World.enter (world : World) (frame : Frame) : Slots := fun index =>
  (frame.locals.read index).map fun slot => (world.parameter index slot.content.type.kind).val

end Machine

/-- Whether the operation is observed: calls, field accesses, allocations, divisions of
integers, returns and throws. -/
def Op.isObserved : Op → Bool
  | .invoke _ _ | .field _ _ | .new _ | .ret _ | .athrow => true
  | .arith operation kind => operation.isDivision && !kind.isFloating
  | _ => false

namespace Machine

/-- An observed operation with its operands, the top of the stack first. -/
structure Observation where
  op : Op
  operands : List Value
deriving DecidableEq

/-- How a run ended. -/
inductive Ending where
  /-- The end of the body was reached. -/
  | finished
  | returned (value : Option Value)
  | thrown (value : Option Value)
  | dividedByZero
  /-- The instruction did not find what it needs. -/
  | stuck
deriving DecidableEq

/-- What an operation adds to the trace. -/
def observations (op : Op) (operands : List Value) : List Observation :=
  if op.isObserved then [⟨op, operands⟩] else []

/-- The way in which an operation ends a run, if it does. -/
def ending? (op : Op) (operands : List Value) : Option Ending :=
  match op with
  | .ret _ => some (.returned operands.head?)
  | .athrow => some (.thrown operands.head?)
  | .arith operation kind =>
    if operation.isDivision && !kind.isFloating && operands.head?.any Value.isZero then
      some .dividedByZero
    else none
  | _ => none

/-- Whether an operation finds what it needs. -/
def permits (slots : Slots) (op : Op) (operands : List Value) : Bool :=
  decide (operands.length = op.effect.pops) && (!op.needsWideTop || operands.all Value.isWide) &&
    match op with
    | .load kind index => (slots index.toNat).any (·.kind = kind)
    | _ => true

/-- The result of an arithmetic operation. -/
def arithmetic (world : World) (operation : ArithOp) (kind : NumericKind)
    (operands : List Value) : Value :=
  match operands with
  | right :: left =>
    match Simulation.fold operation kind (left.head?.map Value.known) right.known with
    | .constant literal => .constant literal
    | _ => world.compute operation kind operands
  | [] => world.compute operation kind operands

/-- What an operation pushes, after a number of observations. -/
def results (world : World) (count : Nat) (slots : Slots) (op : Op) (operands : List Value) :
    List Value :=
  match op with
  | .aconstNull => [.null]
  | .ldc literal => [.constant literal]
  | .load _ index => (slots index.toNat).toList
  | .arith operation kind => [arithmetic world operation kind operands]
  | .dup | .dup2 =>
    match operands with
    | copied :: _ => [copied, copied]
    | [] => []
  | .new _ => [(world.yield count .reference).val]
  | .field .getField target | .field .getStatic target =>
    [(world.yield count target.type.kind).val]
  | .invoke _ target =>
    target.descriptor.result.toList.map fun type => (world.yield count type.kind).val
  | _ => []

/-- What an operation does to the slots. -/
def stored (slots : Slots) (op : Op) (operands : List Value) : Slots :=
  match op, operands with
  | .store _ index, value :: _ => slots.write index.toNat value
  | _, _ => slots

/-- The state of a run. -/
structure State where
  /-- The values on the stack, the top first. -/
  stack : List Value
  slots : Slots
  /-- The observations so far. -/
  trace : List Observation

/-- Runs instructions in order, and returns the trace and the way in which the run ended. -/
def run (world : World) (state : State) : List Instruction → List Observation × Ending
  | [] => (state.trace, .finished)
  | instruction :: rest =>
    let op := instruction.op
    let operands := state.stack.take op.effect.pops
    if permits state.slots op operands then
      let trace := state.trace ++ observations op operands
      match ending? op operands with
      | some outcome => (trace, outcome)
      | none =>
        let pushed := results world state.trace.length state.slots op operands
        run world
          ⟨pushed.reverse ++ state.stack.drop op.effect.pops, stored state.slots op operands, trace⟩
          rest
    else (state.trace, .stuck)

/-- What can be observed of a body that is entered in a frame. -/
def behaviour (world : World) (frame : Frame) (body : Body) : List Observation × Ending :=
  run world ⟨[], world.enter frame, []⟩ body.instructions

end Machine

end ClassTrim
