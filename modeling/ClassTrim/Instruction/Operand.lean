import ClassTrim.StackType
import ClassTrim.Text.Quoted
import ClassTrim.Text.Shortest

/-!
# Operands of instructions

Constants and the small closed sets that instructions are built from: the kinds
of local variables and of arithmetic, the operations, the four ways to reach a
field, the four ways to call a method, and the conditions of a branch.
-/

namespace ClassTrim

/-- A constant. Floating-point constants are held by their bits, so that two
constants are equal exactly when they are the same constant. -/
inductive Constant where
  | int (value : Int32)
  | long (value : Int64)
  | float (bits : UInt32)
  | double (bits : UInt64)
  | string (text : String)
  | classLiteral (name : String)
deriving DecidableEq

namespace Constant

/-- The type of a constant on the stack. -/
def type : Constant → StackType
  | .int _ => .int
  | .long _ => .long
  | .float _ => .float
  | .double _ => .double
  | .string _ => .ref "java/lang/String"
  | .classLiteral _ => .ref "java/lang/Class"

/-- The length in bytes of the shortest instruction that pushes a constant. Zero
counts with either sign. -/
def encodedLength : Constant → Nat
  | .int value =>
    if -1 ≤ value.toInt && value.toInt ≤ 5 then 1
    else if -128 ≤ value.toInt && value.toInt ≤ 127 then 2
    else if -32768 ≤ value.toInt && value.toInt ≤ 32767 then 3
    else 2
  | .long value => if value = 0 || value = 1 then 1 else 3
  | .float bits =>
    if bits = 0x00000000 || bits = 0x80000000 || bits = 0x3F800000 || bits = 0x40000000 then 1
    else 2
  | .double bits =>
    if bits = 0x0000000000000000 || bits = 0x8000000000000000 || bits = 0x3FF0000000000000 then 1
    else 3
  | .string _ | .classLiteral _ => 2

/-- The text of a constant, with a suffix that tells its type. -/
def render : Constant → String
  | .int value => Int.repr value.toInt
  | .long value => Int.repr value.toInt ++ "L"
  | .float bits => Text.Shortest.render Text.Shortest.single bits.toNat ++ "f"
  | .double bits => Text.Shortest.render Text.Shortest.double bits.toNat ++ "d"
  | .string text => Text.Quoted.render text
  | .classLiteral name => name ++ ".class"

end Constant

/-- The kind of value that a load, a store or a return moves. -/
inductive LocalKind where
  | int
  | long
  | float
  | double
  | reference
deriving DecidableEq

namespace LocalKind

/-- The first letter of the instructions of this kind. -/
def letter : LocalKind → String
  | .int => "i"
  | .long => "l"
  | .float => "f"
  | .double => "d"
  | .reference => "a"

/-- All kinds. -/
def all : List LocalKind :=
  [.int, .long, .float, .double, .reference]

/-- The type assumed of a slot about which nothing is known. -/
def defaultType : LocalKind → StackType
  | .int => .int
  | .long => .long
  | .float => .float
  | .double => .double
  | .reference => .object

/-- Whether a value of this kind fills two local slots. -/
def isWide : LocalKind → Bool
  | .long | .double => true
  | _ => false

/-- Whether an instruction of this kind may read a slot of a given type. -/
def fits : LocalKind → StackType → Bool
  | .int, type => type = .int
  | .long, type => type = .long
  | .float, type => type = .float
  | .double, type => type = .double
  | .reference, type => type.isReference

end LocalKind

/-- The operand type of an arithmetic instruction. -/
inductive NumericKind where
  | int
  | long
  | float
  | double
deriving DecidableEq

namespace NumericKind

/-- The first letter of the instructions of this kind. -/
def letter : NumericKind → String
  | .int => "i"
  | .long => "l"
  | .float => "f"
  | .double => "d"

/-- All kinds. -/
def all : List NumericKind :=
  [.int, .long, .float, .double]

/-- The name of the kind. -/
def name : NumericKind → String
  | .int => "Int"
  | .long => "Long"
  | .float => "Float"
  | .double => "Double"

/-- The type of the result. -/
def type : NumericKind → StackType
  | .int => .int
  | .long => .long
  | .float => .float
  | .double => .double

/-- Whether the kind is a floating-point one. -/
def isFloating : NumericKind → Bool
  | .float | .double => true
  | _ => false

end NumericKind

/-- Arithmetic and bitwise operations. -/
inductive ArithOp where
  | add
  | sub
  | mul
  | div
  | rem
  | neg
  | shl
  | shr
  | ushr
  | and
  | or
  | xor
deriving DecidableEq

namespace ArithOp

/-- The name of an operation. -/
def name : ArithOp → String
  | .add => "add"
  | .sub => "sub"
  | .mul => "mul"
  | .div => "div"
  | .rem => "rem"
  | .neg => "neg"
  | .shl => "shl"
  | .shr => "shr"
  | .ushr => "ushr"
  | .and => "and"
  | .or => "or"
  | .xor => "xor"

/-- All operations. -/
def all : List ArithOp :=
  [.add, .sub, .mul, .div, .rem, .neg, .shl, .shr, .ushr, .and, .or, .xor]

/-- Whether the second operand is a number of bits to shift by. -/
def isShift : ArithOp → Bool
  | .shl | .shr | .ushr => true
  | _ => false

/-- Whether the operation exists for `int` and `long` only. -/
def isIntegralOnly : ArithOp → Bool
  | .shl | .shr | .ushr | .and | .or | .xor => true
  | _ => false

/-- The number of operands. -/
def operands : ArithOp → Nat
  | .neg => 1
  | _ => 2

/-- Whether the operation can fail on integers. -/
def isDivision : ArithOp → Bool
  | .div | .rem => true
  | _ => false

end ArithOp

/-- The ways to reach a field. -/
inductive FieldAccess where
  | getField
  | putField
  | getStatic
  | putStatic
deriving DecidableEq

namespace FieldAccess

/-- The mnemonic of an access. -/
def mnemonic : FieldAccess → String
  | .getField => "getfield"
  | .putField => "putfield"
  | .getStatic => "getstatic"
  | .putStatic => "putstatic"

/-- All accesses. -/
def all : List FieldAccess :=
  [.getField, .putField, .getStatic, .putStatic]

end FieldAccess

/-- The ways to call a method. -/
inductive InvokeKind where
  | virtual
  | special
  | static
  | interface
deriving DecidableEq

namespace InvokeKind

/-- The mnemonic of a call. -/
def mnemonic : InvokeKind → String
  | .virtual => "invokevirtual"
  | .special => "invokespecial"
  | .static => "invokestatic"
  | .interface => "invokeinterface"

/-- All calls. -/
def all : List InvokeKind :=
  [.virtual, .special, .static, .interface]

/-- The number of receivers that a call pops. -/
def receivers : InvokeKind → Nat
  | .static => 0
  | _ => 1

end InvokeKind

/-- The conditions of a branch. -/
inductive Condition where
  | eq
  | ne
  | lt
  | ge
  | gt
  | le
  | intEq
  | intNe
  | intLt
  | intGe
  | intGt
  | intLe
  | refEq
  | refNe
  | isNull
  | nonNull
deriving DecidableEq

namespace Condition

/-- The mnemonic of a branch with a condition. -/
def mnemonic : Condition → String
  | .eq => "ifeq"
  | .ne => "ifne"
  | .lt => "iflt"
  | .ge => "ifge"
  | .gt => "ifgt"
  | .le => "ifle"
  | .intEq => "if_icmpeq"
  | .intNe => "if_icmpne"
  | .intLt => "if_icmplt"
  | .intGe => "if_icmpge"
  | .intGt => "if_icmpgt"
  | .intLe => "if_icmple"
  | .refEq => "if_acmpeq"
  | .refNe => "if_acmpne"
  | .isNull => "ifnull"
  | .nonNull => "ifnonnull"

/-- A comparison of two values pops both; the other conditions test one. -/
def operands : Condition → Nat
  | .intEq | .intNe | .intLt | .intGe | .intGt | .intLe | .refEq | .refNe => 2
  | _ => 1

/-- All conditions. -/
def all : List Condition :=
  [.eq, .ne, .lt, .ge, .gt, .le, .intEq, .intNe, .intLt, .intGe, .intGt, .intLe, .refEq, .refNe,
   .isNull, .nonNull]

end Condition

end ClassTrim
