import ClassTrim.Descriptor

/-!
# Member references

An instruction names a field or a method by the class it was compiled against,
the member's name and its descriptor. The class named need not declare the
member: the hierarchy decides who does.
-/

namespace ClassTrim

/-- A symbolic reference to a field. -/
structure FieldRef where
  owner : String
  name : String
  descriptor : FieldDescriptor
deriving DecidableEq

namespace FieldRef

/-- Reads the descriptor and makes a reference. -/
def parse (owner name descriptor : String) : Except Descriptor.Defect FieldRef := do
  return ⟨owner, name, ← FieldDescriptor.parse descriptor⟩

/-- The same member as seen from another class. -/
def withOwner (field : FieldRef) (owner : String) : FieldRef :=
  { field with owner }

/-- The type of the field's value. -/
def type (field : FieldRef) : StackType :=
  field.descriptor.type

/-- The text of a field reference. -/
def render (field : FieldRef) : String :=
  field.owner ++ "." ++ field.name ++ ":" ++ field.descriptor.text

/-- References are ordered by class, then by name, then by descriptor. -/
instance : Ord FieldRef where
  compare first second :=
    (compare first.owner second.owner).then <|
    (compare first.name second.name).then <|
    compare first.descriptor.text second.descriptor.text

end FieldRef

/-- The name that every constructor has. -/
def constructorName : String := "<init>"

/-- The name that every class initializer has. -/
def initializerName : String := "<clinit>"

/-- A symbolic reference to a method. -/
structure MethodRef where
  owner : String
  name : String
  descriptor : MethodDescriptor
deriving DecidableEq

namespace MethodRef

/-- Reads the descriptor and makes a reference. -/
def parse (owner name descriptor : String) : Except Descriptor.Defect MethodRef := do
  return ⟨owner, name, ← MethodDescriptor.parse descriptor⟩

/-- The same member as seen from another class. -/
def withOwner (method : MethodRef) (owner : String) : MethodRef :=
  { method with owner }

/-- Whether the reference names a constructor. -/
def isConstructor (method : MethodRef) : Bool :=
  method.name = constructorName

/-- The text of a method reference. -/
def render (method : MethodRef) : String :=
  method.owner ++ "." ++ method.name ++ method.descriptor.text

/-- References are ordered by class, then by name, then by descriptor. -/
instance : Ord MethodRef where
  compare first second :=
    (compare first.owner second.owner).then <|
    (compare first.name second.name).then <|
    compare first.descriptor.text second.descriptor.text

end MethodRef

namespace Descriptor

/-- Sequences of types are compared from the left, a proper beginning first. -/
def compareTypes : List StackType → List StackType → Ordering
  | [], [] => .eq
  | [], _ :: _ => .lt
  | _ :: _, [] => .gt
  | first :: rest, second :: others => (compare first second).then (compareTypes rest others)

/-- Void comes before every type. -/
def compareResults : Option StackType → Option StackType → Ordering
  | none, none => .eq
  | none, some _ => .lt
  | some _, none => .gt
  | some first, some second => compare first second

/-- Signatures are ordered by their parameters, then by their result. -/
instance : Ord Signature where
  compare first second :=
    (compareTypes first.parameters second.parameters).then
      (compareResults first.result second.result)

end Descriptor

end ClassTrim
