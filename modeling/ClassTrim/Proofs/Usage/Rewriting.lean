import Mathlib.Logic.Relation
import ClassTrim.Proofs.DeadStore.Residue
import ClassTrim.Proofs.Usage.Fields
import ClassTrim.Usage.Methods

/-!
# Member usage does not depend on dead stores

Which members a group uses is read off its field accesses and calls, and off the hierarchy that
they are resolved in. Resolution does not look into bodies. An elimination keeps every field
access and every call, so however many methods are rewritten, the same members are in use.
-/

namespace ClassTrim

/-- The class without the bodies of its methods. -/
def ClassDecl.bare (decl : ClassDecl) : ClassDecl :=
  { decl with methods := decl.methods.map fun method => { method with body := none } }

namespace ClassGroup

/-- The group without the bodies of its methods. -/
def bare (group : ClassGroup) : ClassGroup :=
  group.mapClasses ClassDecl.bare

/-- A class keeps its name and its ancestors without bodies. -/
theorem keepsLinks_bare : KeepsLinks ClassDecl.bare :=
  ⟨fun _ => rfl, fun _ => rfl, fun _ => rfl⟩

/-- Bodies play no part in the search for a field. -/
theorem resolveField_bare (group : ClassGroup) (field : FieldRef) :
    group.bare.resolveField field = group.resolveField field := by
  have walked : group.bare.walk ancestorLinks [field.owner] [] =
      group.walk ancestorLinks [field.owner] [] :=
    walk_mapClasses keepsLinks_bare _ (ancestorLinks_change keepsLinks_bare) _ _
  have declared : group.bare.declaresField field = group.declaresField field := by
    funext name
    simp only [declaresField, bare, class?_mapClasses keepsLinks_bare, Option.any_map]
    rfl
  rw [resolveField, declared, walked, resolveField]

/-- Bodies play no part in what a class declares. -/
theorem declares_bare (target : MethodRef) (decl : ClassDecl) :
    declares target decl.bare = declares target decl := by
  simp only [declares, ClassDecl.method?, ClassDecl.bare, List.find?_map, Option.isSome_map]
  rfl

/-- Bodies play no part in the search for a method. -/
theorem resolveMethod_bare (group : ClassGroup) (target : MethodRef) :
    group.bare.resolveMethod target = group.resolveMethod target := by
  have chain : group.bare.superclassChain target.owner =
      (group.superclassChain target.owner).map ClassDecl.bare :=
    superclassChain_mapClasses keepsLinks_bare target.owner
  have declaring : declares target ∘ ClassDecl.bare = declares target :=
    funext (declares_bare target)
  have starts : ((group.superclassChain target.owner).map ClassDecl.bare).flatMap
      (·.interfaces) = (group.superclassChain target.owner).flatMap (·.interfaces) := by
    rw [List.flatMap_map]
    rfl
  have inside : (fun name => (group.bare.class? name).any (declares target)) =
      fun name => (group.class? name).any (declares target) := by
    funext name
    rw [bare, class?_mapClasses keepsLinks_bare, Option.any_map]
    exact congrArg (Option.any · _) declaring
  have walked : ∀ names, group.bare.walk (·.interfaces.reverse) names [] =
      group.walk (·.interfaces.reverse) names [] :=
    fun names => walk_mapClasses keepsLinks_bare _ (fun _ => rfl) names []
  simp only [resolveMethod, chain, List.find?_map, declaring, starts, inside]
  cases (group.superclassChain target.owner).find? (declares target) with
  | some decl => rfl
  | none => simp only [Option.map_none, walked]

/-- The operations of the group with side effects outside the local slots, in order. -/
def lasting (group : ClassGroup) : List Op :=
  group.ops.filter Op.isLasting

/-- What is read off lasting operations only can be read off those of the group. -/
theorem filterMap_ops (group : ClassGroup) {α : Type} {target? : Op → Option α}
    (passing : ∀ op, op.isLasting = false → target? op = none) :
    group.ops.filterMap target? = group.lasting.filterMap target? := by
  rw [lasting, List.filterMap_filter]
  congr 1
  funext op
  cases lasts : op.isLasting with
  | true => rfl
  | false => exact passing op lasts

end ClassGroup

namespace Usage

variable {group next last : ClassGroup}

/-- Which fields are in use is decided by the lasting operations and by the group without its
bodies. -/
theorem usedFields_congr (sameOps : next.lasting = group.lasting)
    (sameShape : next.bare = group.bare) : usedFields next = usedFields group := by
  have passing : ∀ op : Op, op.isLasting = false → op.field? = none := by
    intro op passing
    cases op <;> first | rfl | cases passing
  have resolved : next.resolveField = group.resolveField := by
    funext field
    rw [← next.resolveField_bare, sameShape, group.resolveField_bare]
  rw [usedFields, usedFields, next.filterMap_ops passing, group.filterMap_ops passing, sameOps,
    resolved]

/-- So is which methods are in use. -/
theorem usedMethods_congr (sameOps : next.lasting = group.lasting)
    (sameShape : next.bare = group.bare) : usedMethods next = usedMethods group := by
  have passingDirect : ∀ op, op.isLasting = false → directTarget? group op = none := by
    intro op passing
    cases op <;> first | rfl | cases passing
  have passingDispatched : ∀ op, op.isLasting = false → dispatchedTarget? op = none := by
    intro op passing
    cases op <;> first | rfl | cases passing
  have resolved : next.resolveMethod = group.resolveMethod := by
    funext target
    rw [← next.resolveMethod_bare, sameShape, group.resolveMethod_bare]
  have direct : directTarget? next = directTarget? group := by
    funext op
    unfold directTarget?
    rw [resolved]
  rw [usedMethods, usedMethods, direct, next.filterMap_ops passingDirect,
    next.filterMap_ops passingDispatched, group.filterMap_ops passingDirect,
    group.filterMap_ops passingDispatched, sameOps]

/-- Fields that are not in use are told by the group without its bodies. -/
theorem unusedFields_congr (used : List FieldRef) (sameShape : next.bare = group.bare) :
    unusedFields next used = unusedFields group used := by
  have shape : ∀ other : ClassGroup, unusedFields other.bare used = unusedFields other used := by
    intro other
    simp only [unusedFields, ClassGroup.bare, ClassGroup.mapClasses, List.flatMap_map]
    rfl
  rw [← shape next, sameShape, shape group]

end Usage

namespace DeadStore

variable {group next last : ClassGroup}

/-- One method of a group is replaced by what an elimination makes of it. -/
inductive Rewrite : ClassGroup → ClassGroup → Prop
  | intro {site : Site} {method : MethodDecl} {limit : Nat} {body : Body} {reports : List Report}
      (eliminated : eliminate site.owner method limit = .ok (some (body, reports))) :
      Rewrite (site.hold [method]) (site.hold [{ method with body := some body }])

/-- An elimination changes bodies and nothing else. -/
theorem Rewrite.bare_eq (rewrite : Rewrite group next) : next.bare = group.bare := by
  cases rewrite
  simp [ClassGroup.bare, ClassGroup.mapClasses, Site.hold, Site.holder, ClassDecl.bare]

/-- An elimination leaves all lasting operations in their order. -/
theorem Rewrite.lasting_eq (rewrite : Rewrite group next) : next.lasting = group.lasting := by
  obtain ⟨eliminated⟩ := rewrite
  obtain ⟨before, given, same⟩ := eliminate_lasting eliminated
  have filtered : ∀ body : Body, (body.instructions.map Instruction.op).filter Op.isLasting =
      body.lasting.map Instruction.op := by
    intro body
    rw [List.filter_map]
    rfl
  simp only [ClassGroup.lasting, Site.ops_hold, List.filter_append, List.flatMap_singleton,
    MethodDecl.ops, given, Option.toList_some, filtered, same]

/-- Any number of rewritten methods leaves what decides about members in use. -/
theorem usage_of_rewrites (rewrites : Relation.ReflTransGen Rewrite group last) :
    last.bare = group.bare ∧ last.lasting = group.lasting := by
  induction rewrites with
  | refl => exact ⟨rfl, rfl⟩
  | tail _ rewrite ih => exact ⟨rewrite.bare_eq.trans ih.1, rewrite.lasting_eq.trans ih.2⟩

end DeadStore

end ClassTrim
