import Mathlib.Control.Monad.Basic
import Mathlib.Data.List.Basic
import ClassTrim.Proofs.ClassGroup
import ClassTrim.Proofs.Hierarchy
import ClassTrim.Usage.Fields

/-!
# Removing unused fields

Removal erases fields one at a time, each the first of its name and descriptor in its
class. Fields that share both are used together or not at all, so what is left of a class
is its used fields, in order, whatever the class declares twice.

A field that some instruction reaches stays where it was found, and a class that did not
declare it before does not declare it now. So every reference of the group still means
what it meant, and a second removal finds nothing to do.
-/

namespace ClassTrim.Usage

variable {group : ClassGroup} {used : List FieldRef}

/-- Keeping the used fields changes each class by itself. -/
theorem keepFields_eq (group : ClassGroup) (used : List FieldRef) :
    keepFields group used = group.mapClasses (keepFieldsOf used) := rfl

/-- A class keeps its name and its ancestors with fewer fields. -/
theorem keepsLinks_keepFieldsOf (used : List FieldRef) :
    ClassGroup.KeepsLinks (keepFieldsOf used) :=
  ⟨fun _ => rfl, fun _ => rfl, fun _ => rfl⟩

/-- Name and descriptor tell which field of a class is meant. -/
theorem reference_eq_withOwner {field : FieldDecl} {reference : FieldRef} (owner : String)
    (named : field.isNamed reference.name reference.descriptor.text = true) :
    field.reference owner = reference.withOwner owner := by
  simp only [FieldDecl.isNamed, Bool.and_eq_true, decide_eq_true_eq] at named
  obtain ⟨sameName, sameText⟩ := named
  rw [FieldDecl.reference, sameName, FieldDescriptor.eq_of_text sameText, FieldRef.withOwner]

/-- A field has the name and descriptor by which it is referred to. -/
theorem isNamed_reference (field : FieldDecl) (owner : String) :
    field.isNamed (field.reference owner).name (field.reference owner).descriptor.text = true := by
  simp [FieldDecl.isNamed, FieldDecl.reference]

/-- A field that none of the erasures names stays in front. -/
theorem eraseFields_cons (decl : ClassDecl) (field : FieldDecl) (fields : List FieldDecl)
    {doomed : List FieldRef}
    (missed : ∀ reference ∈ doomed,
      field.isNamed reference.name reference.descriptor.text = false) :
    eraseFields { decl with fields := field :: fields } doomed =
      ((eraseFields { decl with fields := fields } doomed).1,
        { decl with
          fields := field :: (eraseFields { decl with fields := fields } doomed).2.fields }) := by
  induction doomed generalizing fields with
  | nil => rfl
  | cons reference rest ih =>
    have apart := missed reference List.mem_cons_self
    have later := fun other member => missed other (List.mem_cons_of_mem _ member)
    simp only [eraseFields, ClassDecl.field?, ClassDecl.eraseField, List.find?_cons, apart,
      List.eraseP_cons]
    cases fields.find? (·.isNamed reference.name reference.descriptor.text) with
    | none => exact ih fields later
    | some found => simp only [cond_false, ih _ later]

/-- Erasing the unused fields of a class one at a time leaves the used ones. The induction
is on the declared fields: an unused one in front is the first of its name and descriptor
and goes at once, and a used one in front is named by none of the erasures. -/
theorem eraseFields_unusedFieldsOf (used : List FieldRef) (decl : ClassDecl) :
    eraseFields decl (unusedFieldsOf used decl) =
      (unusedFieldsOf used decl, keepFieldsOf used decl) := by
  obtain ⟨name, superName, interfaces, access, fields, methods⟩ := decl
  simp only [unusedFieldsOf, keepFieldsOf]
  induction fields with
  | nil => rfl
  | cons field rest ih =>
    by_cases kept : field.reference name ∈ used
    · have keeps : keepsField used name field = true := by simpa [keepsField] using kept
      rw [List.filter_cons_of_neg (by simp [keeps]), List.filter_cons_of_pos keeps]
      have missed : ∀ reference ∈
          (rest.filter (!keepsField used name ·)).map (·.reference name),
          field.isNamed reference.name reference.descriptor.text = false := by
        intro reference member
        obtain ⟨other, unused, rfl⟩ := List.mem_map.mp member
        apply Bool.eq_false_iff.mpr
        intro named
        have same : field.reference name = other.reference name :=
          reference_eq_withOwner name named
        have dropped := (List.mem_filter.mp unused).2
        simp [keepsField, ← same, kept] at dropped
      have step := eraseFields_cons ⟨name, superName, interfaces, access, [], methods⟩ field rest
        missed
      rw [step, ih]
    · have drops : ¬keepsField used name field = true := by simpa [keepsField] using kept
      rw [List.filter_cons_of_pos (by simp [drops]), List.filter_cons_of_neg drops, List.map_cons]
      simp only [eraseFields, ClassDecl.field?, ClassDecl.eraseField, List.find?_cons,
        List.eraseP_cons, isNamed_reference, cond_true, ih]

/-- Removal returns the unused fields and leaves the others. -/
theorem removeFields_eq (group : ClassGroup) (used : List FieldRef) :
    removeFields group used = (unusedFields group used, keepFields group used) := by
  have swept : (fun decl => eraseFields decl (unusedFieldsOf used decl)) =
      fun decl => (unusedFieldsOf used decl, keepFieldsOf used decl) :=
    funext (eraseFields_unusedFieldsOf used)
  simp only [removeFields, swept, List.flatMap_map, List.map_map]
  rfl

/-- Methods are not touched. -/
theorem declared_keepFields (group : ClassGroup) (used : List FieldRef) :
    (keepFields group used).declared = group.declared := by
  simp only [keepFields_eq, ClassGroup.declared, ClassGroup.mapClasses, List.flatMap_map]
  rfl

/-- The removal of fields leaves the code as it is. -/
theorem ops_keepFields (group : ClassGroup) (used : List FieldRef) :
    (keepFields group used).ops = group.ops := by
  rw [ClassGroup.ops_eq, declared_keepFields, ← ClassGroup.ops_eq]

/-- A class declares a field after removal if it did before and the field is used. -/
theorem declaresField_keepFields (group : ClassGroup) (used : List FieldRef) (field : FieldRef)
    (name : String) :
    (keepFields group used).declaresField field name = true ↔
      group.declaresField field name = true ∧ field.withOwner name ∈ used := by
  simp only [ClassGroup.declaresField, keepFields_eq,
    ClassGroup.class?_mapClasses (keepsLinks_keepFieldsOf used)]
  cases found : group.class? name with
  | none => simp
  | some decl =>
    have named := ClassGroup.name_of_class? found
    simp only [Option.map_some, Option.any_some, ClassDecl.field?, keepFieldsOf,
      List.find?_isSome, List.mem_filter]
    constructor
    · rintro ⟨declared, ⟨member, kept⟩, same⟩
      refine ⟨⟨declared, member, same⟩, ?_⟩
      rw [← reference_eq_withOwner name same]
      simpa [keepsField, named] using kept
    · rintro ⟨⟨declared, member, same⟩, kept⟩
      rw [← reference_eq_withOwner name same] at kept
      exact ⟨declared, ⟨member, by simpa [keepsField, named] using kept⟩, same⟩

/-- A reference whose meaning is kept still means the same. -/
theorem resolveField_keepFields {field : FieldRef}
    (kept : ∀ meant, group.resolveField field = some meant → meant ∈ used) :
    (keepFields group used).resolveField field = group.resolveField field := by
  have walked : (keepFields group used).walk ClassGroup.ancestorLinks [field.owner] [] =
      group.walk ClassGroup.ancestorLinks [field.owner] [] := by
    rw [keepFields_eq]
    exact ClassGroup.walk_mapClasses (keepsLinks_keepFieldsOf used) _
      (ClassGroup.ancestorLinks_change (keepsLinks_keepFieldsOf used)) _ _
  simp only [ClassGroup.resolveField, walked]
  congr 1
  apply ClassGroup.find?_eq_of_fewer
  · intro name _ declared
    exact ((declaresField_keepFields group used field name).mp declared).1
  · intro name found
    refine (declaresField_keepFields group used field name).mpr ⟨List.find?_some found, ?_⟩
    exact kept _ (by simp only [ClassGroup.resolveField, found, Option.map_some])

/-- The operations that reach a field are the accesses to it. -/
theorem field?_eq_some_iff {op : Op} {target : FieldRef} :
    op.field? = some target ↔ ∃ access, op = .field access target := by
  cases op <;> simp [Op.field?]

/-- The used fields are what the accesses of the group mean. -/
theorem mem_usedFields {field : FieldRef} :
    field ∈ usedFields group ↔ ∃ access target, .field access target ∈ group.ops ∧
      group.resolveField target = some field := by
  simp only [usedFields, List.mem_eraseDups, List.mem_filterMap, field?_eq_some_iff]
  constructor
  · rintro ⟨target, ⟨_, member, access, rfl⟩, resolved⟩
    exact ⟨access, target, member, resolved⟩
  · rintro ⟨access, target, member, resolved⟩
    exact ⟨target, ⟨_, member, access, rfl⟩, resolved⟩

/-- No access is redirected or left without a field. -/
theorem resolveField_of_mem_ops {access : FieldAccess} {target : FieldRef}
    (member : .field access target ∈ group.ops) :
    (keepFields group (usedFields group)).resolveField target = group.resolveField target :=
  resolveField_keepFields fun _ resolved => mem_usedFields.mpr ⟨access, target, member, resolved⟩

/-- The same fields are in use after removal. -/
theorem usedFields_keepFields (group : ClassGroup) :
    usedFields (keepFields group (usedFields group)) = usedFields group := by
  have same : (group.ops.filterMap Op.field?).filterMap
        (keepFields group (usedFields group)).resolveField =
      (group.ops.filterMap Op.field?).filterMap group.resolveField := by
    apply List.filterMap_congr
    intro field member
    obtain ⟨op, inside, reaches⟩ := List.mem_filterMap.mp member
    obtain ⟨access, rfl⟩ := field?_eq_some_iff.mp reaches
    exact resolveField_of_mem_ops inside
  calc usedFields (keepFields group (usedFields group))
      = (((keepFields group (usedFields group)).ops.filterMap Op.field?).filterMap
          (keepFields group (usedFields group)).resolveField).eraseDups := rfl
    _ = ((group.ops.filterMap Op.field?).filterMap group.resolveField).eraseDups := by
        rw [ops_keepFields, same]
    _ = usedFields group := rfl

/-- What was kept is kept again. -/
theorem keepFields_keepFields (group : ClassGroup) (used : List FieldRef) :
    keepFields (keepFields group used) used = keepFields group used := by
  simp only [keepFields, List.map_map]
  congr 2
  funext decl
  simp only [Function.comp_apply, keepFieldsOf, List.filter_filter, Bool.and_self]

/-- Where only used fields are kept no unused ones are left. -/
theorem unusedFields_keepFields (group : ClassGroup) (used : List FieldRef) :
    unusedFields (keepFields group used) used = [] := by
  simp only [unusedFields, keepFields, List.flatMap_map, List.flatMap_eq_nil_iff, unusedFieldsOf,
    keepFieldsOf, List.map_eq_nil_iff, List.filter_filter, List.filter_eq_nil_iff]
  intro decl _ field _
  simp

/-- Every declared field is kept or returned. -/
theorem fieldCount_keepFields (group : ClassGroup) (used : List FieldRef) :
    (keepFields group used).fieldCount + (unusedFields group used).length = group.fieldCount := by
  simp only [keepFields, unusedFields, ClassGroup.fieldCount, List.flatMap_map]
  induction group.classes with
  | nil => rfl
  | cons decl rest ih =>
    have here := decl.fields.length_eq_length_filter_add (keepsField used decl.name)
    simp only [List.flatMap_cons, List.length_append, keepFieldsOf, unusedFieldsOf,
      List.length_map] at ih ⊢
    omega

/-- Removal takes out fields and nothing else; what it returns is what is missing. -/
theorem removeUnusedFields_accounts (group : ClassGroup) :
    (removeUnusedFields group).2.declared = group.declared ∧
      (removeUnusedFields group).2.fieldCount + (removeUnusedFields group).1.length =
        group.fieldCount := by
  rw [removeUnusedFields, removeFields_eq]
  exact ⟨declared_keepFields group _, fieldCount_keepFields group _⟩

/-- Removal keeps exactly the used fields of each class, in order, and changes nothing else. The
used fields are those that some access of the group means. Every access still means what it meant,
so the same fields are in use as before; what is returned is what is missing; and a second removal
does nothing. -/
theorem removeUnusedFields_exact (group : ClassGroup) :
    (removeUnusedFields group).2.classes =
        (group.classes.map fun decl =>
          { decl with
            fields := decl.fields.filter (·.reference decl.name ∈ usedFields group) }) ∧
      (∀ field, field ∈ usedFields group ↔ ∃ access target, .field access target ∈ group.ops ∧
        group.resolveField target = some field) ∧
      (∀ access target, .field access target ∈ group.ops →
        (removeUnusedFields group).2.resolveField target = group.resolveField target) ∧
      usedFields (removeUnusedFields group).2 = usedFields group ∧
      (removeUnusedFields group).2.fieldCount + (removeUnusedFields group).1.length =
        group.fieldCount ∧
      removeUnusedFields (removeUnusedFields group).2 = ([], (removeUnusedFields group).2) := by
  have once := removeFields_eq group (usedFields group)
  have inUse := usedFields_keepFields group
  have twice := removeFields_eq (keepFields group (usedFields group)) (usedFields group)
  simp only [removeUnusedFields, once, inUse, twice]
  refine ⟨rfl, fun _ => mem_usedFields, ?_, trivial, fieldCount_keepFields group _, ?_⟩
  · intro access target member
    exact resolveField_of_mem_ops member
  · rw [unusedFields_keepFields, keepFields_keepFields]

/-- A number that a meter shows, as a member of a class. -/
def reading (owner name : String) : FieldRef :=
  ⟨owner, name, "D", .double, rfl⟩

/-- A meter has two numbers, and the gauge below it reads one of them under its own name. -/
def dials : ClassGroup :=
  ⟨[⟨"Meter", some "java/lang/Object", [], 1,
      [⟨"spare", (reading "Meter" "spare").descriptor, 0⟩,
        ⟨"level", (reading "Meter" "level").descriptor, 0⟩], []⟩,
    ⟨"Gauge", some "Meter", [], 1, [],
      [⟨"show", ⟨"()D", ⟨[], some .double⟩, by decide +kernel⟩, 8,
        some (.ofPlaced 0 [(.field .getStatic (reading "Gauge" "level"), 0),
          (.ret (some .double), 3)])⟩]⟩]⟩

/-- The number that is read stays with the class that declares it, and the other one goes. -/
theorem removeUnusedFields_exact_dials :
    (removeUnusedFields dials).2.classes.map (fun decl => decl.fields.map FieldDecl.name) =
        [["level"], []] ∧
      (removeUnusedFields dials).2.resolveField (reading "Gauge" "level") =
        some (reading "Meter" "level") ∧
      (removeUnusedFields dials).2.fieldCount + 1 = dials.fieldCount := by
  obtain ⟨kept, -, same, -⟩ := removeUnusedFields_exact dials
  have ops : dials.ops = [.field .getStatic (reading "Gauge" "level"), .ret (some .double)] := rfl
  have meant : dials.resolveField (reading "Gauge" "level") = some (reading "Meter" "level") := by
    have walked : dials.walk ClassGroup.ancestorLinks ["Gauge"] [] =
        ["Gauge", "Meter", "java/lang/Object"] := by
      simp [ClassGroup.walk_fresh, ClassGroup.walk, dials, ClassGroup.class?,
        ClassGroup.ancestorLinks]
    have owner : (reading "Gauge" "level").owner = "Gauge" := rfl
    rw [ClassGroup.resolveField, owner, walked]
    rfl
  have inUse : usedFields dials = [reading "Meter" "level"] := by
    have reached : dials.ops.filterMap Op.field? = [reading "Gauge" "level"] := rfl
    rw [usedFields, reached, List.filterMap_cons_some meant]
    rfl
  rw [inUse] at kept
  refine ⟨?_, (same .getStatic _ (by simp [ops])).trans meant, ?_⟩
  · rw [kept]
    rfl
  · rw [ClassGroup.fieldCount, kept]
    rfl

end ClassTrim.Usage
