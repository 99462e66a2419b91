import ClassTrim.Instruction.Operand
import ClassTrim.Member

/-!
# Instructions

An operation with its operands, and an instruction: an operation that has an
identity and a place in a method body. Constant pushes of every encoding are one
operation, and so are the typed loads and stores.

Effects on the stack count values, not slots: a `long` is one value. The
operations on two slots exist here only in the form that moves one wide value.
-/

namespace ClassTrim

/-- The identity of an instruction inside its body. -/
abbrev InstructionId := Nat

/-- What an instruction does. -/
inductive Op where
  | nop
  | aconstNull
  | ldc (constant : Constant)
  | load (kind : LocalKind) (index : UInt16)
  | store (kind : LocalKind) (index : UInt16)
  | arith (operation : ArithOp) (kind : NumericKind)
  | pop
  | pop2
  | dup
  | dup2
  | new (className : String)
  | field (access : FieldAccess) (target : FieldRef)
  | invoke (kind : InvokeKind) (target : MethodRef)
  /-- An unconditional branch to a program counter. -/
  | goto (target : Nat)
  /-- A conditional branch to a program counter. -/
  | branch (condition : Condition) (target : Nat)
  /-- A return, of a value if a kind is given. -/
  | ret (kind : Option LocalKind)
  | athrow
deriving DecidableEq

/-- How many values an operation pops and pushes. -/
structure Effect where
  pops : Nat
  pushes : Nat
deriving DecidableEq

namespace Op

/-- The mnemonic of an operation. Shifts and bitwise operations have none for
floating-point operands. -/
def mnemonic : Op → String
  | .nop => "nop"
  | .aconstNull => "aconst_null"
  | .ldc _ => "ldc"
  | .load kind _ => kind.letter ++ "load"
  | .store kind _ => kind.letter ++ "store"
  | .arith operation kind =>
    if operation.isIntegralOnly && kind.isFloating then "<invalid>"
    else kind.letter ++ operation.name
  | .pop => "pop"
  | .pop2 => "pop2"
  | .dup => "dup"
  | .dup2 => "dup2"
  | .new _ => "new"
  | .field access _ => access.mnemonic
  | .invoke kind _ => kind.mnemonic
  | .goto _ => "goto"
  | .branch condition _ => condition.mnemonic
  | .ret none => "return"
  | .ret (some kind) => kind.letter ++ "return"
  | .athrow => "athrow"

/-- The largest count that the effect of a call can state. -/
def argumentLimit : Nat := 65535

/-- The effect of an operation on the stack. A call pops its arguments and its
receiver; the count stops at the limit. -/
def effect : Op → Effect
  | .nop | .goto _ | .ret none => ⟨0, 0⟩
  | .aconstNull | .ldc _ | .load _ _ | .new _ => ⟨0, 1⟩
  | .store _ _ | .pop | .pop2 | .ret (some _) | .athrow => ⟨1, 0⟩
  | .arith operation _ => ⟨operation.operands, 1⟩
  | .dup | .dup2 => ⟨1, 2⟩
  | .field .getField _ => ⟨1, 1⟩
  | .field .putField _ => ⟨2, 0⟩
  | .field .getStatic _ => ⟨0, 1⟩
  | .field .putStatic _ => ⟨1, 0⟩
  | .invoke kind target =>
    ⟨min argumentLimit (target.descriptor.parameters.length + kind.receivers),
      if target.descriptor.result.isSome then 1 else 0⟩
  | .branch condition _ => ⟨condition.operands, 0⟩

/-- Whether the operation pushes two copies of the value that it pops. -/
def isDuplication : Op → Bool
  | .dup | .dup2 => true
  | _ => false

/-- Whether the operation takes its operand in the wide form only. -/
def needsWideTop : Op → Bool
  | .dup2 | .pop2 => true
  | _ => false

/-- Whether the operation is a branch. -/
def isBranch : Op → Bool
  | .goto _ | .branch _ _ => true
  | _ => false

/-- The program counter that a branch leads to. -/
def branchTarget? : Op → Option Nat
  | .goto target | .branch _ target => some target
  | _ => none

/-- Whether the operation does more than to put its results on the stack: calls,
field accesses, allocations, stores, transfers of control, and the divisions
that can fail. -/
def hasSideEffect : Op → Bool
  | .invoke _ _ | .field _ _ | .new _ | .store _ _ | .goto _ | .branch _ _ | .ret _ | .athrow =>
    true
  | .arith operation kind => operation.isDivision && !kind.isFloating
  | _ => false

/-- The field that the operation reaches. -/
def field? : Op → Option FieldRef
  | .field _ target => some target
  | _ => none

/-- The method that the operation calls. -/
def method? : Op → Option MethodRef
  | .invoke _ target => some target
  | _ => none

/-- The local slot that the operation reads. -/
def loadedIndex? : Op → Option UInt16
  | .load _ index => some index
  | _ => none

/-- The length of the encoded operation in bytes. -/
def encodedLength : Op → Nat
  | .ldc constant => constant.encodedLength
  | .load _ index | .store _ index => if index < 4 then 1 else if index < 256 then 2 else 4
  | .new _ | .field _ _ | .goto _ | .branch _ _ => 3
  | .invoke .interface _ => 5
  | .invoke _ _ => 3
  | _ => 1

/-- The operand of an operation as text, if it has one. -/
def operand? : Op → Option String
  | .ldc constant => some constant.render
  | .load _ index | .store _ index => some (Nat.repr index.toNat)
  | .new className => some className
  | .field _ target => some target.render
  | .invoke _ target => some target.render
  | .goto target | .branch _ target => some (Nat.repr target)
  | _ => none

/-- The text of an operation: its mnemonic, and its operand after a blank. -/
def render (op : Op) : String :=
  match op.operand? with
  | some operand => op.mnemonic ++ " " ++ operand
  | none => op.mnemonic

/-- Every operation is at least one byte long. -/
theorem encodedLength_pos (op : Op) : 0 < op.encodedLength := by
  cases op with
  | ldc constant =>
    cases constant <;> simp only [encodedLength, Constant.encodedLength] <;> (repeat' split) <;> omega
  | load kind index => simp only [encodedLength]; (repeat' split) <;> omega
  | store kind index => simp only [encodedLength]; (repeat' split) <;> omega
  | invoke kind target => cases kind <;> simp [encodedLength]
  | _ => simp [encodedLength]

end Op

/-- One instruction of a body: its identity, the program counter it was decoded
at, and what it does. -/
structure Instruction where
  id : InstructionId
  pc : Nat
  op : Op
deriving DecidableEq

namespace Instruction

/-- The mnemonic of an instruction. -/
def mnemonic (instruction : Instruction) : String :=
  instruction.op.mnemonic

/-- The text of an identity. -/
def renderId (id : InstructionId) : String :=
  "#" ++ Nat.repr id

/-- The text of an instruction: the program counter, to the right in four
columns, and the operation. -/
def render (instruction : Instruction) : String :=
  let counter := Nat.repr instruction.pc
  String.ofList (List.replicate (4 - counter.length) ' ') ++ counter ++ ": " ++ instruction.op.render

end Instruction

end ClassTrim
