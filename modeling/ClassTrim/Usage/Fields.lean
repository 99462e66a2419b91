import ClassTrim.Hierarchy

/-!
# Used fields

A field is used if some instruction of the group reaches it, after resolution to
the class that declares it. References that leave the group name library fields
and use nothing. Removal keeps the used fields, in order, and changes nothing
else.
-/

namespace ClassTrim.Usage

/-- The fields that instructions of a group reach, each once, as members of the
classes that declare them. -/
def usedFields (group : ClassGroup) : List FieldRef :=
  ((group.ops.filterMap Op.field?).filterMap group.resolveField).eraseDups

/-- Whether a declared field is among given ones. -/
def keepsField (used : List FieldRef) (owner : String) (field : FieldDecl) : Bool :=
  field.reference owner ∈ used

/-- The declared fields of a class that are not among given ones, in order. -/
def unusedFieldsOf (used : List FieldRef) (decl : ClassDecl) : List FieldRef :=
  (decl.fields.filter (!keepsField used decl.name ·)).map (·.reference decl.name)

/-- The declared fields that are not among given ones, in order of declaration. -/
def unusedFields (group : ClassGroup) (used : List FieldRef) : List FieldRef :=
  group.classes.flatMap (unusedFieldsOf used)

/-- The class with only those of its fields that are among given ones. -/
def keepFieldsOf (used : List FieldRef) (decl : ClassDecl) : ClassDecl :=
  { decl with fields := decl.fields.filter (keepsField used decl.name) }

/-- The group with only those fields that are among given ones. -/
def keepFields (group : ClassGroup) (used : List FieldRef) : ClassGroup :=
  ⟨group.classes.map (keepFieldsOf used)⟩

/-- Erases fields of a class one by one, each the first of its name and descriptor, and
returns those that the class declared. -/
def eraseFields (decl : ClassDecl) : List FieldRef → List FieldRef × ClassDecl
  | [] => ([], decl)
  | field :: rest =>
    match decl.field? field.name field.descriptor.text with
    | none => eraseFields decl rest
    | some _ =>
      let (erased, last) := eraseFields (decl.eraseField field.name field.descriptor.text) rest
      (field :: erased, last)

/-- Removes the fields that are not among given ones, class by class, and returns
them. -/
def removeFields (group : ClassGroup) (used : List FieldRef) : List FieldRef × ClassGroup :=
  let swept := group.classes.map fun decl => eraseFields decl (unusedFieldsOf used decl)
  (swept.flatMap Prod.fst, ⟨swept.map Prod.snd⟩)

/-- Removes the fields that no instruction reaches, and returns them. -/
def removeUnusedFields (group : ClassGroup) : List FieldRef × ClassGroup :=
  removeFields group (usedFields group)

end ClassTrim.Usage
