import ClassTrim.Instruction.Operand

/-!
# Abstract values

What the simulation knows about a value: its type always, and the value itself
where it is the null reference or a constant.
-/

namespace ClassTrim

/-- What is known about a value. -/
inductive AbstractValue where
  | unknown
  | null
  | constant (value : Constant)
deriving DecidableEq, Inhabited

namespace AbstractValue

/-- Whether the value is known. -/
def isKnown : AbstractValue → Bool
  | .unknown => false
  | _ => true

/-- The value as an `int`, if it is known to be one. -/
def int? : AbstractValue → Option Int32
  | .constant (.int value) => some value
  | _ => none

/-- The value as a `long`, if it is known to be one. -/
def long? : AbstractValue → Option Int64
  | .constant (.long value) => some value
  | _ => none

/-- The text of an abstract value. -/
def render : AbstractValue → String
  | .unknown => "?"
  | .null => "null"
  | .constant value => value.render

end AbstractValue

/-- A typed abstract value, as it stands on the stack or in a local slot. -/
structure Content where
  type : StackType
  value : AbstractValue
deriving DecidableEq, Inhabited

namespace Content

/-- An unknown value of a type. -/
def unknown (type : StackType) : Content :=
  ⟨type, .unknown⟩

/-- A constant with its own type. -/
def ofConstant (constant : Constant) : Content :=
  ⟨constant.type, .constant constant⟩

end Content

end ClassTrim
