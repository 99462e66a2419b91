import ClassTrim.Proofs.Usage.Methods

/-!
# Inherited methods that library code calls

An object of a class may be known to library code under the name of a library class or
interface, and the methods that it is asked for there may be inherited. Removal looks at the
class that declares a method, not at the classes that inherit it: a method that no call of the
group reaches stays if the class that declares it has an ancestor in a library. Where only a
subclass has one, the method goes, and library code that holds an object of the subclass finds
nothing to call.

Removal goes by reference. So what happens to one method can be said of any group, as long as
no other method has its reference: the method goes if its reference is listed, and removals of
other references leave it alone.
-/

namespace ClassTrim

namespace ClassGroup

variable {group changed : ClassGroup} {owner : String} {method gone : MethodDecl}
  {reference : MethodRef} {decl : ClassDecl}

/-- Changing the first class of one name changes what is looked up under that name. -/
theorem class?_update (group : ClassGroup) (name owner : String) (change : ClassDecl → ClassDecl)
    (keeps : ∀ decl, (change decl).name = decl.name) :
    (group.update name change).class? owner =
      (group.class? owner).map fun decl => if name = owner then change decl else decl := by
  obtain ⟨classes⟩ := group
  simp only [update, class?]
  induction classes with
  | nil => rfl
  | cons decl rest ih =>
    by_cases meant : decl.name = name
    · by_cases asked : decl.name = owner
      · simp [updateFirst, meant.symm, keeps, asked]
      · simp [updateFirst, meant.symm, keeps, asked]
    · by_cases asked : decl.name = owner
      · have apart : name ≠ owner := fun same => meant (asked.trans same.symm)
        simp [updateFirst, asked, apart, apart.symm]
      · simp [updateFirst, meant, asked, ih]

/-- A removal leaves a method of another reference where it is looked up. -/
theorem exists_class?_of_removeMethod
    (removed : group.removeMethod reference.owner reference.name reference.descriptor.text =
      .ok (some gone, changed))
    (found : group.class? owner = some decl) (declares : method ∈ decl.methods)
    (other : method.reference owner ≠ reference) :
    ∃ holder, changed.class? owner = some holder ∧ method ∈ holder.methods := by
  have updated : changed = group.update reference.owner
      (·.eraseMethod reference.name reference.descriptor.text) := by
    unfold removeMethod at removed
    split at removed
    · cases removed
    · exact (Prod.mk.inj (Except.ok.inj removed)).2.symm
  have looked := class?_update group reference.owner owner
    (·.eraseMethod reference.name reference.descriptor.text) fun _ => rfl
  rw [found, Option.map_some, ← updated] at looked
  refine ⟨_, looked, ?_⟩
  split
  · next same =>
    refine (List.mem_eraseP_of_neg ?_).mpr declares
    intro named
    exact other ((method.reference_eq_withOwner owner named).trans (by rw [← same]; rfl))
  · exact declares

/-- Emptying a place takes one occurrence of a reference away. -/
theorem references_hold (site : Site) (method : MethodDecl) :
    (site.hold [method]).references.Perm
      (method.reference site.owner :: (site.hold []).references) := by
  simp only [references, Site.declared_hold, List.map_append, List.map_cons, List.map_nil,
    List.nil_append, List.singleton_append]
  exact List.perm_middle

end ClassGroup

namespace Usage

variable {group : ClassGroup} {owner : String} {method : MethodDecl} {decl : ClassDecl}
  {doomed : List MethodRef}

/-- One removal either finds nothing and changes nothing, or empties the place of a method of
the reference. -/
theorem removeMethods_cons (group : ClassGroup) (reference : MethodRef) (rest : List MethodRef) :
    removeMethods group (reference :: rest) = removeMethods group rest ∨
      ∃ (site : Site) (gone : MethodDecl),
        group.removeMethod reference.owner reference.name reference.descriptor.text =
          .ok (some gone, site.hold []) ∧
        gone.reference site.owner = reference ∧ group = site.hold [gone] ∧
        removeMethods group (reference :: rest) =
          (reference :: (removeMethods (site.hold []) rest).1,
            (removeMethods (site.hold []) rest).2) := by
  cases outcome : group.removeMethod reference.owner reference.name reference.descriptor.text with
  | error fault => exact .inl (by simp only [removeMethods, outcome])
  | ok answer =>
    obtain ⟨entry, changed⟩ := answer
    cases entry with
    | none => exact .inl (by simp only [removeMethods, outcome])
    | some gone =>
      obtain ⟨site, sameOwner, named, held, emptied⟩ :=
        ClassGroup.exists_site_of_removeMethod outcome
      have same : gone.reference site.owner = reference := by
        rw [gone.reference_eq_withOwner _ named, sameOwner]
        rfl
      exact .inr ⟨site, gone, by rw [emptied], same, held, by
        simp only [removeMethods, outcome, emptied]⟩

/-- The references are divided between the methods that go and those that stay. -/
theorem removeMethods_perm (group : ClassGroup) (doomed : List MethodRef) :
    ((removeMethods group doomed).1 ++ (removeMethods group doomed).2.references).Perm
      group.references := by
  induction doomed generalizing group with
  | nil => exact .refl _
  | cons reference rest ih =>
    rcases removeMethods_cons group reference rest with same | ⟨site, gone, -, meant, rfl, emptied⟩
    · rw [same]
      exact ih group
    · rw [emptied]
      have later := (ih (site.hold [])).cons reference
      rw [← meant] at later ⊢
      exact later.trans (ClassGroup.references_hold site gone).symm

/-- A method whose reference is not listed stays. -/
theorem mem_declared_removeMethods (member : (owner, method) ∈ group.declared)
    (spared : method.reference owner ∉ doomed) :
    (owner, method) ∈ (removeMethods group doomed).2.declared := by
  induction doomed generalizing group with
  | nil => exact member
  | cons reference rest ih =>
    obtain ⟨other, sparedLater⟩ : method.reference owner ≠ reference ∧
        method.reference owner ∉ rest := by simpa using spared
    rcases removeMethods_cons group reference rest with same | ⟨site, gone, -, meant, rfl, emptied⟩
    · rw [same]
      exact ih member sparedLater
    · rw [emptied]
      refine ih ?_ sparedLater
      rcases Site.mem_declared_hold.mp member with here | around
      · obtain ⟨rfl, rfl⟩ := Prod.mk.inj here
        exact absurd meant other
      · simpa [Site.declared_hold] using around

/-- A method whose reference is listed goes, if nothing else has its reference and it is found
where its class is looked up. -/
theorem not_mem_references_removeMethods (listed : method.reference owner ∈ doomed)
    (once : group.references.count (method.reference owner) ≤ 1)
    (found : group.class? owner = some decl) (declares : method ∈ decl.methods) :
    method.reference owner ∉ (removeMethods group doomed).2.references := by
  induction doomed generalizing group decl with
  | nil => cases listed
  | cons reference rest ih =>
    by_cases here : method.reference owner = reference
    · subst here
      -- The removal finds a method, which has taken the only occurrence of the reference.
      have first : (decl.method? method.name method.descriptor.text).isSome = true :=
        List.find?_isSome.mpr ⟨method, declares, by simp [MethodDecl.isNamed]⟩
      obtain ⟨gone, first⟩ := Option.isSome_iff_exists.mp first
      have outcome : group.removeMethod owner method.name method.descriptor.text =
          .ok (some gone, group.update owner
            (·.eraseMethod method.name method.descriptor.text)) := by
        simp only [ClassGroup.removeMethod, found, first]
      obtain ⟨site, sameOwner, named, rfl, emptied⟩ :=
        ClassGroup.exists_site_of_removeMethod outcome
      subst sameOwner
      have same : gone.reference site.owner = method.reference site.owner :=
        show _ = (method.reference site.owner).withOwner site.owner from
          gone.reference_eq_withOwner site.owner named
      have counted := (ClassGroup.references_hold site gone).count_eq (method.reference site.owner)
      rw [same, List.count_cons_self] at counted
      have absent : method.reference site.owner ∉ (site.hold []).references :=
        List.count_eq_zero.mp (by omega)
      have left : (removeMethods (site.hold [gone]) (method.reference site.owner :: rest)).2 =
          (removeMethods (site.hold []) rest).2 := by
        rw [← emptied]
        simp only [removeMethods, MethodDecl.reference, outcome]
      rw [left]
      intro member
      exact absent (((removeMethods_accounts _ rest).1.map _).subset member)
    · have listedLater : method.reference owner ∈ rest :=
        (List.mem_cons.mp listed).resolve_left here
      rcases removeMethods_cons group reference rest with
        same | ⟨site, gone, outcome, -, rfl, emptied⟩
      · rw [same]
        exact ih listedLater once found declares
      · rw [emptied]
        obtain ⟨holder, foundLater, declaresLater⟩ :=
          ClassGroup.exists_class?_of_removeMethod outcome found declares here
        refine ih listedLater ?_ foundLater declaresLater
        have fewer : (site.hold []).references.Sublist (site.hold [gone]).references := by
          simp [ClassGroup.references, Site.declared_hold]
        exact Nat.le_trans (fewer.count_le _) once

/-- Only one method has a reference that occurs once. -/
theorem eq_of_count_references {other : MethodDecl}
    (once : group.references.count (method.reference owner) = 1)
    (member : (owner, method) ∈ group.declared) (inside : (owner, other) ∈ group.declared)
    (same : other.reference owner = method.reference owner) : other = method := by
  obtain ⟨front, rear, split⟩ := List.append_of_mem member
  rw [ClassGroup.references, split, List.map_append, List.map_cons, List.count_append,
    List.count_cons_self] at once
  have notFront : method.reference owner ∉ front.map fun entry => entry.2.reference entry.1 :=
    List.count_eq_zero.mp (by omega)
  have notRear : method.reference owner ∉ rear.map fun entry => entry.2.reference entry.1 :=
    List.count_eq_zero.mp (by omega)
  rw [split, List.mem_append, List.mem_cons] at inside
  rcases inside with inside | here | inside
  · exact absurd (List.mem_map.mpr ⟨_, inside, same⟩) notFront
  · exact (Prod.mk.inj here).2
  · exact absurd (List.mem_map.mpr ⟨_, inside, same⟩) notRear

/-- Where references are distinct, a declared method stays, or its reference is removed and no
longer there. -/
theorem mem_declared_or_removed (distinct : group.references.Nodup)
    (member : (owner, method) ∈ group.declared) (doomed : List MethodRef) :
    (owner, method) ∈ (removeMethods group doomed).2.declared ∨
      method.reference owner ∈ (removeMethods group doomed).1 ∧
        method.reference owner ∉ (removeMethods group doomed).2.references := by
  have divided := removeMethods_perm group doomed
  have listed : method.reference owner ∈ group.references := List.mem_map.mpr ⟨_, member, rfl⟩
  rcases List.mem_append.mp (divided.mem_iff.mpr listed) with removed | left
  · have apart := List.disjoint_of_nodup_append (divided.nodup_iff.mpr distinct)
    exact .inr ⟨removed, fun stays => apart removed stays⟩
  · obtain ⟨⟨other, twin⟩, stays, same⟩ := List.mem_map.mp left
    obtain rfl : other = owner := congrArg MethodRef.owner same
    have before := (removeMethods_accounts group doomed).1.subset stays
    have once := List.count_eq_one_of_mem distinct listed
    rw [eq_of_count_references once member before same] at stays
    exact .inl stays

/-- Of a method that is found where its class is looked up and whose reference nothing else has,
removal decides by the method alone. -/
theorem mem_declared_removeUnusedMethods_iff
    (once : group.references.count (method.reference owner) = 1)
    (found : group.class? owner = some decl) (declares : method ∈ decl.methods) :
    (owner, method) ∈ (removeUnusedMethods group).2.declared ↔
      isEntryPoint group decl method = true ∨ isUsed (usedMethods group) owner method = true := by
  have named := ClassGroup.name_of_class? found
  have member : (owner, method) ∈ group.declared :=
    ClassGroup.mem_declared.mpr ⟨decl, ClassGroup.mem_of_class? found, named, declares⟩
  constructor
  · intro stays
    by_contra unused
    rw [not_or, Bool.not_eq_true, Bool.not_eq_true] at unused
    have listed : method.reference owner ∈ unusedMethods group (usedMethods group) := by
      refine mem_unusedMethods.mpr ⟨decl, ClassGroup.mem_of_class? found, method, declares, ?_, ?_⟩
      · rw [unused.1, named, unused.2, Bool.or_self]
      · rw [named]
    refine not_mem_references_removeMethods listed (Nat.le_of_eq once) found declares ?_
    exact List.mem_map.mpr ⟨_, stays, rfl⟩
  · intro kept
    apply mem_declared_removeMethods member
    intro listed
    obtain ⟨other, inside, twin, declared, unused, same⟩ := mem_unusedMethods.mp listed
    have sameOwner : other.name = owner := congrArg MethodRef.owner same
    have sameMethod : twin = method := by
      apply eq_of_count_references once member
      · exact ClassGroup.mem_declared.mpr ⟨other, inside, sameOwner, declared⟩
      · rw [← same, sameOwner]
    have entry : isEntryPoint group other method = isEntryPoint group decl method := by
      simp only [isEntryPoint, sameOwner, named]
    rw [sameMethod, sameOwner, entry, Bool.or_eq_false_iff] at unused
    rcases kept with entered | used
    · rw [entered] at unused
      cases unused.1
    · rw [used] at unused
      cases unused.2

/-- The first instance method of a name and descriptor that an object has is declared by a class
that is looked up under its own name. -/
theorem exists_class?_of_dispatch {receiver : String} {target : MethodRef}
    (reached : group.dispatch receiver target = some (owner, method)) :
    ∃ decl, group.class? owner = some decl ∧ method ∈ decl.methods ∧ method.isStatic = false := by
  have member := List.mem_of_head? reached
  obtain ⟨decl, onChain, member⟩ := List.mem_flatMap.mp member
  obtain ⟨found, declares, same⟩ := List.mem_map.mp member
  obtain ⟨rfl, rfl⟩ := Prod.mk.inj same
  obtain ⟨declares, meant⟩ := List.mem_filter.mp declares
  simp only [Bool.and_eq_true, Bool.not_eq_true'] at meant
  exact ⟨decl, ClassGroup.class?_of_mem_superclassChain onChain, declares, meant.2⟩

/-- What makes an instance method an entry point. -/
theorem isEntryPoint_iff_of_instance (onInstances : method.isStatic = false) :
    isEntryPoint group decl method = true ↔
      method.isConstructor = true ∨ method.isInitializer = true ∨ method.isBodiless = true ∨
        (objectMethods.any fun entry => method.isNamed entry.1 entry.2) = true ∨
        group.hasLibraryAncestor decl.name = true := by
  simp only [isEntryPoint, onInstances, Bool.false_eq_true, if_false]
  split
  · next special =>
    simp only [Bool.or_eq_true] at special
    tauto
  · next ordinary =>
    simp only [Bool.or_eq_true] at ordinary ⊢
    tauto

/-- Take the first instance method of a name and descriptor that an object of some class has, and
let no other method have its reference. It is still declared where it was exactly if some call
reaches it, or it is a constructor, an initializer, without a body or an override of what every
object has, or the class that declares it has a library ancestor. The library ancestors of the
class of the object do not count. -/
theorem dispatched_method_stays_iff (group : ClassGroup) (receiver : String) (target : MethodRef)
    {owner : String} {method : MethodDecl}
    (reached : group.dispatch receiver target = some (owner, method))
    (once : group.references.count (method.reference owner) = 1) :
    (owner, method) ∈ (removeUnusedMethods group).2.declared ↔
      isUsed (usedMethods group) owner method = true ∨
        method.isConstructor = true ∨ method.isInitializer = true ∨ method.isBodiless = true ∨
        (objectMethods.any fun entry => method.isNamed entry.1 entry.2) = true ∨
        group.hasLibraryAncestor owner = true := by
  obtain ⟨decl, found, declares, onInstances⟩ := exists_class?_of_dispatch reached
  rw [mem_declared_removeUnusedMethods_iff once found declares,
    isEntryPoint_iff_of_instance onInstances, ClassGroup.name_of_class? found, or_comm]

/-- A base class without ancestors in a library, and a subclass that a library knows as a supplier
of numbers. -/
def meters (known : List String) : ClassGroup :=
  ⟨[⟨"Base", some "java/lang/Object", known, 1, [], [constantly "getAsInt" 1 5]⟩,
    ⟨"Meter", some "Base", ["java/util/function/IntSupplier"], 1, [], []⟩]⟩

/-- The superclasses of the subclass are the two classes of the group, the nearest first. -/
theorem superclassChain_meters (known : List String) :
    (meters known).superclassChain "Meter" = (meters known).classes.reverse := by
  simp [ClassGroup.superclassChain, ClassGroup.walk_fresh, ClassGroup.walk, meters,
    ClassGroup.class?]

/-- An object of the subclass has the method of the base class. -/
theorem dispatch_meters (known : List String) :
    (meters known).dispatch "Meter" ⟨"Meter", "getAsInt", toNumber⟩ =
      some ("Base", constantly "getAsInt" 1 5) := by
  rw [ClassGroup.dispatch, superclassChain_meters]
  rfl

/-- The supplier method that a subclass inherits goes, though a library may call it on objects of
the subclass. -/
theorem inherited_supplier_goes :
    (meters []).hasLibraryAncestor "Meter" = true ∧
      (meters []).dispatch "Meter" ⟨"Meter", "getAsInt", toNumber⟩ =
        some ("Base", constantly "getAsInt" 1 5) ∧
      ("Base", constantly "getAsInt" 1 5) ∉ (removeUnusedMethods (meters [])).2.declared := by
  have above : (meters []).hasLibraryAncestor "Base" = false := by
    simp [ClassGroup.hasLibraryAncestor, ClassGroup.walk_fresh, ClassGroup.walk, meters,
      ClassGroup.class?, ClassGroup.ancestorLinks, ClassGroup.isLibrary, StackType.objectName]
  have unused : isUsed (usedMethods (meters [])) "Base" (constantly "getAsInt" 1 5) = false := rfl
  refine ⟨?_, dispatch_meters [], ?_⟩
  · simp [ClassGroup.hasLibraryAncestor, ClassGroup.walk_fresh, ClassGroup.walk, meters,
      ClassGroup.class?, ClassGroup.ancestorLinks, ClassGroup.isLibrary, StackType.objectName]
  · rw [mem_declared_removeUnusedMethods_iff (by decide) rfl List.mem_cons_self,
      isEntryPoint_iff_of_instance (by decide), above, unused]
    decide

/-- The same method stays if the base class is known to the library itself. -/
theorem dispatched_method_stays_iff_meters :
    (meters ["java/util/function/IntSupplier"]).dispatch "Meter" ⟨"Meter", "getAsInt", toNumber⟩ =
        some ("Base", constantly "getAsInt" 1 5) ∧
      ("Base", constantly "getAsInt" 1 5) ∈
        (removeUnusedMethods (meters ["java/util/function/IntSupplier"])).2.declared := by
  have above :
      (meters ["java/util/function/IntSupplier"]).hasLibraryAncestor "Base" = true := by
    simp [ClassGroup.hasLibraryAncestor, ClassGroup.walk_fresh, ClassGroup.walk, meters,
      ClassGroup.class?, ClassGroup.ancestorLinks, ClassGroup.isLibrary, StackType.objectName]
  refine ⟨dispatch_meters _, ?_⟩
  exact (dispatched_method_stays_iff _ _ _ (dispatch_meters _) (by decide)).mpr
    (.inr (.inr (.inr (.inr (.inr above)))))

end Usage

end ClassTrim
