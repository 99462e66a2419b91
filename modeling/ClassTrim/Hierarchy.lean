import ClassTrim.ClassGroup

/-!
# The class hierarchy

Every question about the hierarchy is one walk: start from some names, follow
chosen links of the classes of the group, depth first, and meet no name twice.
Names outside the group end a path. Hierarchies may be cyclic; the walk still
ends, because every class that it follows is new.

Field resolution takes the first declaring class of a walk through interfaces
and then the superclass. Method resolution prefers the superclass chain, and then
walks the interfaces of the classes on it, the last one first.
-/

namespace ClassTrim

namespace ClassGroup

/-- The classes of the group that a walk has not met yet. -/
def unmet (group : ClassGroup) (met : List String) : List ClassDecl :=
  group.classes.filter (·.name ∉ met)

/-- Meeting a name takes the classes of that name away. -/
theorem unmet_cons (group : ClassGroup) (name : String) (met : List String) :
    group.unmet (name :: met) = (group.unmet met).filter (·.name ≠ name) := by
  simp only [unmet, List.filter_filter]
  congr 1
  funext other
  simp [List.mem_cons, not_or]

/-- To meet a name does not bring back a class that was met before. -/
theorem unmet_length_le (group : ClassGroup) (name : String) (met : List String) :
    (group.unmet (name :: met)).length ≤ (group.unmet met).length := by
  rw [unmet_cons]
  exact List.length_filter_le _ _

/-- A class of the group that is met for the first time was unmet before. -/
theorem unmet_length_lt {group : ClassGroup} {name : String} {met : List String}
    {decl : ClassDecl} (found : group.class? name = some decl) (fresh : name ∉ met) :
    (group.unmet (name :: met)).length < (group.unmet met).length := by
  have member : decl ∈ group.classes := List.mem_of_find?_eq_some found
  have named : decl.name = name := by simpa using List.find?_some found
  rw [unmet_cons]
  apply List.length_filter_lt_length_iff_exists.mpr
  exact ⟨decl, List.mem_filter.mpr ⟨member, by simpa [named] using fresh⟩, by simp [named]⟩

/-- Walks the hierarchy depth first along `links`. The result lists the names met,
each once, in the order in which they were met; `met` holds those of earlier
steps, the latest first. -/
def walk (group : ClassGroup) (links : ClassDecl → List String)
    (pending met : List String) : List String :=
  match pending with
  | [] => met.reverse
  | name :: rest =>
    if fresh : name ∈ met then walk group links rest met
    else
      match found : group.class? name with
      | none => walk group links rest (name :: met)
      | some decl =>
        have := unmet_length_lt found fresh
        walk group links (links decl ++ rest) (name :: met)
termination_by ((group.unmet met).length, pending.length)
decreasing_by
  · exact Prod.Lex.right _ (Nat.lt_succ_self _)
  · rcases Nat.lt_or_eq_of_le (unmet_length_le group name met) with less | same
    · exact Prod.Lex.left _ _ less
    · rw [same]
      exact Prod.Lex.right _ (Nat.lt_succ_self _)
  · exact Prod.Lex.left _ _ (by assumption)

/-- The direct ancestors of a class: its interfaces, then its superclass. -/
def ancestorLinks (decl : ClassDecl) : List String :=
  decl.interfaces ++ decl.superName.toList

/-- The class of a name and its superclasses, nearest first, as far as they are in
the group. -/
def superclassChain (group : ClassGroup) (name : String) : List ClassDecl :=
  (group.walk (·.superName.toList) [name] []).filterMap group.class?

/-- Whether the class of a name declares a field. -/
def declaresField (group : ClassGroup) (field : FieldRef) (name : String) : Bool :=
  (group.class? name).any fun decl => (decl.field? field.name field.descriptor.text).isSome

/-- The field that a reference means, as a member of the class that declares it. -/
def resolveField (group : ClassGroup) (field : FieldRef) : Option FieldRef :=
  ((group.walk ancestorLinks [field.owner] []).find? (group.declaresField field)).map
    field.withOwner

/-- Whether a class declares a method. -/
def declares (method : MethodRef) (decl : ClassDecl) : Bool :=
  (decl.method? method.name method.descriptor.text).isSome

/-- The method that a reference means, as a member of the class that declares it. -/
def resolveMethod (group : ClassGroup) (method : MethodRef) : Option MethodRef :=
  let chain := group.superclassChain method.owner
  match chain.find? (declares method) with
  | some decl => some (method.withOwner decl.name)
  | none =>
    let starts := (chain.flatMap (·.interfaces)).reverse
    ((group.walk (·.interfaces.reverse) starts []).find? fun name =>
      (group.class? name).any (declares method)).map method.withOwner

/-- Whether a name lies outside the group and is not the root class. -/
def isLibrary (group : ClassGroup) (name : String) : Bool :=
  (group.class? name).isNone && name ≠ StackType.objectName

/-- Whether some ancestor of a class, or the class itself, is library code that may
know the class's methods. -/
def hasLibraryAncestor (group : ClassGroup) (name : String) : Bool :=
  (group.walk ancestorLinks [name] []).any group.isLibrary

end ClassGroup

end ClassTrim
