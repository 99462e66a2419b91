import ClassTrim.Access
import ClassTrim.Body

/-!
# Class groups

A class group holds the classes that are analysed and trimmed together, in load
order. Everything outside the group is library code, of which nothing is known.
-/

namespace ClassTrim

/-- A field that a class declares. -/
structure FieldDecl where
  name : String
  descriptor : FieldDescriptor
  access : UInt16
deriving DecidableEq

namespace FieldDecl

/-- Reads the descriptor and makes a declaration. -/
def parse (name descriptor : String) (access : UInt16) : Except Fault FieldDecl :=
  match FieldDescriptor.parse descriptor with
  | .error defect => .error (.ofDefect defect)
  | .ok read => .ok ⟨name, read, access⟩

/-- Whether the field has a name and a descriptor. -/
def isNamed (field : FieldDecl) (name descriptor : String) : Bool :=
  field.name = name && field.descriptor.text = descriptor

/-- The reference to the field as a member of a class. -/
def reference (field : FieldDecl) (owner : String) : FieldRef :=
  ⟨owner, field.name, field.descriptor⟩

end FieldDecl

/-- A method that a class declares. -/
structure MethodDecl where
  name : String
  descriptor : MethodDescriptor
  access : UInt16
  body : Option Body
deriving DecidableEq

namespace MethodDecl

/-- Reads the descriptor and makes a declaration without a body. -/
def parse (name descriptor : String) (access : UInt16) : Except Fault MethodDecl :=
  match MethodDescriptor.parse descriptor with
  | .error defect => .error (.ofDefect defect)
  | .ok read => .ok ⟨name, read, access, none⟩

/-- Whether the method has a name and a descriptor. -/
def isNamed (method : MethodDecl) (name descriptor : String) : Bool :=
  method.name = name && method.descriptor.text = descriptor

/-- The reference to the method as a member of a class. -/
def reference (method : MethodDecl) (owner : String) : MethodRef :=
  ⟨owner, method.name, method.descriptor⟩

/-- Whether the method belongs to the class and not to its instances. -/
def isStatic (method : MethodDecl) : Bool :=
  Access.isStatic method.access

/-- Whether the method is abstract or native. -/
def isBodiless (method : MethodDecl) : Bool :=
  Access.isBodiless method.access

/-- Whether the method is a constructor. -/
def isConstructor (method : MethodDecl) : Bool :=
  method.name = constructorName

/-- Whether the method initializes its class. -/
def isInitializer (method : MethodDecl) : Bool :=
  method.name = initializerName

end MethodDecl

/-- A class. -/
structure ClassDecl where
  name : String
  superName : Option String
  interfaces : List String
  access : UInt16
  fields : List FieldDecl
  methods : List MethodDecl
deriving DecidableEq

namespace ClassDecl

/-- The first declared field with a name and a descriptor. -/
def field? (decl : ClassDecl) (name descriptor : String) : Option FieldDecl :=
  decl.fields.find? (·.isNamed name descriptor)

/-- The first declared method with a name and a descriptor. -/
def method? (decl : ClassDecl) (name descriptor : String) : Option MethodDecl :=
  decl.methods.find? (·.isNamed name descriptor)

/-- The class without the first field of that name and descriptor. -/
def eraseField (decl : ClassDecl) (name descriptor : String) : ClassDecl :=
  { decl with fields := decl.fields.eraseP (·.isNamed name descriptor) }

/-- The class without the first method of that name and descriptor. -/
def eraseMethod (decl : ClassDecl) (name descriptor : String) : ClassDecl :=
  { decl with methods := decl.methods.eraseP (·.isNamed name descriptor) }

/-- The bodies of the class, in order of declaration. -/
def bodies (decl : ClassDecl) : List Body :=
  decl.methods.filterMap (·.body)

end ClassDecl

/-- The classes that are analysed and trimmed together. -/
structure ClassGroup where
  classes : List ClassDecl
deriving DecidableEq

namespace ClassGroup

/-- The class of a name; the first one, if there are several. -/
def class? (group : ClassGroup) (name : String) : Option ClassDecl :=
  group.classes.find? (·.name = name)

/-- Adds a class behind the others. -/
def add (group : ClassGroup) (decl : ClassDecl) : ClassGroup :=
  ⟨group.classes ++ [decl]⟩

/-- Changes the first class for which a test holds. -/
def updateFirst (test : ClassDecl → Bool) (change : ClassDecl → ClassDecl) :
    List ClassDecl → List ClassDecl
  | [] => []
  | decl :: rest =>
    if test decl then change decl :: rest else decl :: updateFirst test change rest

/-- Changes the class of a name. -/
def update (group : ClassGroup) (name : String) (change : ClassDecl → ClassDecl) : ClassGroup :=
  ⟨updateFirst (·.name = name) change group.classes⟩

/-- Removes a field from the class of a name, and returns the field if the class
declared it. -/
def removeField (group : ClassGroup) (owner name descriptor : String) :
    Except Fault (Option FieldDecl × ClassGroup) :=
  match group.class? owner with
  | none => .error (.classNotFound owner)
  | some decl =>
    .ok (decl.field? name descriptor, group.update owner (·.eraseField name descriptor))

/-- Removes a method from the class of a name, and returns the method if the
class declared it. -/
def removeMethod (group : ClassGroup) (owner name descriptor : String) :
    Except Fault (Option MethodDecl × ClassGroup) :=
  match group.class? owner with
  | none => .error (.classNotFound owner)
  | some decl =>
    .ok (decl.method? name descriptor, group.update owner (·.eraseMethod name descriptor))

/-- All declared methods with their classes, in order of declaration. -/
def methods (group : ClassGroup) : List (ClassDecl × MethodDecl) :=
  group.classes.flatMap fun decl => decl.methods.map fun method => (decl, method)

/-- All operations of all bodies, in order. -/
def ops (group : ClassGroup) : List Op :=
  group.classes.flatMap fun decl =>
    decl.bodies.flatMap fun body => body.instructions.map Instruction.op

/-- The number of declared fields. -/
def fieldCount (group : ClassGroup) : Nat :=
  (group.classes.flatMap (·.fields)).length

/-- The number of declared methods. -/
def methodCount (group : ClassGroup) : Nat :=
  group.methods.length

/-- The number of instructions of all bodies. -/
def instructionCount (group : ClassGroup) : Nat :=
  group.ops.length

end ClassGroup

end ClassTrim
