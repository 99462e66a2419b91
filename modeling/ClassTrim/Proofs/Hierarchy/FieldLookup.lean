import ClassTrim.Proofs.Hierarchy.Preorder

/-!
# What a field reference means

A field is looked up in the class that a reference names, then in its interfaces, in the order in
which they are declared, and then in its superclass; in each of them by the same rule. In an
acyclic hierarchy the rule is a definition, `lookupField`. Resolution gives its answer there, and
in every hierarchy the first declaring class along all paths.
-/

namespace ClassTrim.ClassGroup

variable {group : ClassGroup} {field : FieldRef} {name : String} {path names : List String}

/-- Looks a field up in a class, then in its interfaces, then in its superclass. Nothing is
remembered from one ancestor to the next. -/
def lookupField (group : ClassGroup) (acyclic : group.Acyclic ancestorLinks) (field : FieldRef)
    (name : String) : Option FieldRef :=
  match found : group.class? name with
  | none => none
  | some decl =>
    if (decl.field? field.name field.descriptor.text).isSome then some (field.withOwner name)
    else
      (decl.interfaces.attach.findSome? fun parent =>
        have := acyclic.card_walk_lt ⟨decl, found, List.mem_append_left _ parent.2⟩
        lookupField group acyclic field parent.1).or
      (decl.superName.attach.bind fun parent =>
        have above := Option.mem_toList.mpr parent.2
        have := acyclic.card_walk_lt ⟨decl, found, List.mem_append_right _ above⟩
        lookupField group acyclic field parent.1)
termination_by (group.walk ancestorLinks [name] []).toFinset.card

/-- A class that declares the field ends the search; any other passes it on to its ancestors. -/
theorem lookupField_eq (acyclic : group.Acyclic ancestorLinks) (field : FieldRef) (name : String) :
    group.lookupField acyclic field name =
      if group.declaresField field name then some (field.withOwner name)
      else (group.next ancestorLinks name).findSome? (group.lookupField acyclic field) := by
  rw [lookupField]
  split
  · next outside => simp [declaresField, next, outside]
  · next decl found =>
    have above : decl.superName.toList.findSome? (group.lookupField acyclic field) =
        decl.superName.bind (group.lookupField acyclic field) := by
      cases decl.superName <;> simp
    simp [declaresField, next, found, ancestorLinks, above]

/-- Where no name lies on a path to itself, the first declaring class along the paths is the one
that looking the names up one by one comes to. -/
theorem find?_preorder_eq_lookupField (acyclic : group.Acyclic ancestorLinks) (field : FieldRef)
    (ahead : ∀ passed ∈ path, ∀ name ∈ names,
      Relation.TransGen (group.Linked ancestorLinks) passed name) :
    ((group.preorder ancestorLinks path names).find? (group.declaresField field)).map
        field.withOwner =
      names.findSome? (group.lookupField acyclic field) := by
  replace ahead : group.Ahead ancestorLinks path names := ahead
  induction path, names using preorder.induct group ancestorLinks with
  | case1 path => simp [preorder]
  | case2 path name rest onPath ih => exact absurd onPath (ahead.fresh acyclic)
  | case3 path name rest fresh behind beside =>
    rw [preorder_fresh fresh, List.findSome?_cons, lookupField_eq]
    by_cases declares : group.declaresField field name = true
    · simp [declares]
    · rw [List.find?_cons_of_neg declares, List.find?_append, Option.map_or, behind ahead.behind,
        beside ahead.beside, if_neg declares]
      cases (group.next ancestorLinks name).findSome? (group.lookupField acyclic field) <;> rfl

/-- A name declares a field if its class is in the group and has one of that name and descriptor. -/
theorem declaresField_iff : group.declaresField field name = true ↔
    ∃ decl, group.class? name = some decl ∧ ∃ declared ∈ decl.fields,
      declared.name = field.name ∧ declared.descriptor = field.descriptor := by
  have same : ∀ declared : FieldDecl, declared.isNamed field.name field.descriptor.text = true ↔
      declared.name = field.name ∧ declared.descriptor = field.descriptor := by
    intro declared
    simp only [FieldDecl.isNamed, Bool.and_eq_true, decide_eq_true_eq]
    exact and_congr_right fun _ => ⟨FieldDescriptor.eq_of_text, fun alike => by rw [alike]⟩
  simp only [declaresField, Option.any_eq_true, ClassDecl.field?, List.find?_isSome, same]

/-- A field reference resolves exactly if some class that the named class reaches declares the
field. It resolves to the first such class along the paths from the named class, in depth-first
preorder, although the search follows no name twice; and in an acyclic hierarchy to the class
where looking the field up recursively ends. -/
theorem resolveField_first (group : ClassGroup) (field : FieldRef) :
    ((group.resolveField field).isSome = true ↔
        ∃ name decl, group.Reaches ancestorLinks field.owner name ∧
          group.class? name = some decl ∧ ∃ declared ∈ decl.fields,
            declared.name = field.name ∧ declared.descriptor = field.descriptor) ∧
      group.resolveField field =
        ((group.preorder ancestorLinks [] [field.owner]).find? (group.declaresField field)).map
          field.withOwner ∧
      ∀ acyclic : group.Acyclic ancestorLinks,
        group.resolveField field = group.lookupField acyclic field field.owner := by
  have first : group.resolveField field =
      ((group.preorder ancestorLinks [] [field.owner]).find? (group.declaresField field)).map
        field.withOwner := by
    rw [resolveField, find?_walk]
  refine ⟨?_, first, fun acyclic => ?_⟩
  · rw [resolveField, Option.isSome_map, List.find?_isSome]
    simp only [mem_walk, List.mem_singleton, exists_eq_left, declaresField_iff, exists_and_left]
  · rw [first, find?_preorder_eq_lookupField acyclic field (by simp)]
    simp

/-- The largest number, as a member of a class. -/
def largest (owner : String) : FieldRef :=
  ⟨owner, "max", "I", .int, rfl⟩

/-- Cells have one interface by way of two others, and a field both from an interface and from
their superclass. -/
def cells : ClassGroup :=
  ⟨[⟨"Cell", some "Grid", ["Drawn", "Sized"], 1, [], []⟩,
    ⟨"Drawn", some "java/lang/Object", ["Named"], 513, [], []⟩,
    ⟨"Sized", some "java/lang/Object", ["Named", "Limits"], 513, [], []⟩,
    ⟨"Named", some "java/lang/Object", [], 513, [], []⟩,
    ⟨"Limits", some "java/lang/Object", [], 513, [⟨"max", (largest "Limits").descriptor, 25⟩], []⟩,
    ⟨"Grid", some "java/lang/Object", [], 1, [⟨"max", (largest "Grid").descriptor, 9⟩], []⟩]⟩

/-- The shared interface is passed over the second time, and the search goes on behind it. -/
theorem resolveField_first_cells :
    ∃ acyclic : cells.Acyclic ancestorLinks,
      cells.resolveField (largest "Cell") = some (largest "Limits") ∧
        cells.lookupField acyclic (largest "Cell") "Cell" = some (largest "Limits") := by
  have acyclic : cells.Acyclic ancestorLinks :=
    acyclic_of_rank
      ["java/lang/Object", "Named", "Limits", "Grid", "Drawn", "Sized", "Cell"].idxOf (by decide)
  obtain ⟨_, _, agrees⟩ := resolveField_first cells (largest "Cell")
  have resolved : cells.resolveField (largest "Cell") = some (largest "Limits") := by
    have walked : cells.walk ancestorLinks ["Cell"] [] =
        ["Cell", "Drawn", "Named", "java/lang/Object", "Sized", "Limits", "Grid"] := by
      simp [walk_fresh, walk, cells, class?, ancestorLinks]
    have owner : (largest "Cell").owner = "Cell" := rfl
    rw [resolveField, owner, walked]
    rfl
  exact ⟨acyclic, resolved, (agrees acyclic).symm.trans resolved⟩

end ClassTrim.ClassGroup
