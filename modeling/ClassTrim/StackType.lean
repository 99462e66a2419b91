/-!
# Stack types

The operand stack distinguishes five kinds of value. The small integral types
are all `int` there, and an array is a reference whose name is its whole
descriptor. A `long` or a `double` is one value, but fills two local slots.
-/

namespace ClassTrim

/-- The type of a value on the operand stack or in a local slot. -/
inductive StackType where
  | int
  | long
  | float
  | double
  /-- A class or array instance, by internal name. -/
  | ref (name : String)
  /-- The type of the null constant. -/
  | null
deriving DecidableEq, Inhabited

namespace StackType

/-- The root of every class hierarchy. -/
def objectName : String := "java/lang/Object"

/-- The type of an instance about which nothing is known. -/
def object : StackType := .ref objectName

/-- Whether a value of this type fills two local slots. -/
def isWide : StackType → Bool
  | .long | .double => true
  | _ => false

/-- The number of local slots that a value of this type fills. -/
def slots (type : StackType) : Nat :=
  if type.isWide then 2 else 1

/-- The number of local slots that values of these types fill side by side. -/
def totalSlots : List StackType → Nat
  | [] => 0
  | type :: rest => type.slots + totalSlots rest

/-- Whether a value of this type is a reference; null is one. -/
def isReference : StackType → Bool
  | .ref _ | .null => true
  | _ => false

/-- The text of a type: its keyword, or the name of the class. -/
def render : StackType → String
  | .int => "int"
  | .long => "long"
  | .float => "float"
  | .double => "double"
  | .ref name => name
  | .null => "null"

/-- The place of a type's kind in the order of types. -/
def rank : StackType → Nat
  | .int => 0
  | .long => 1
  | .float => 2
  | .double => 3
  | .ref _ => 4
  | .null => 5

/-- Types are ordered by kind, and references among themselves by name. -/
instance : Ord StackType where
  compare
    | .ref first, .ref second => compare first second
    | first, second => compare first.rank second.rank

end StackType

end ClassTrim
