import Mathlib.Control.Monad.Basic
import Mathlib.Data.List.Nodup
import ClassTrim.Proofs.ClassGroup
import ClassTrim.Proofs.Hierarchy
import ClassTrim.Usage.Methods

/-!
# Removing unused methods

Removal takes methods out one at a time, each by its class, name and descriptor. Nothing
else changes in any group, and what is returned is what is missing. Where classes and the
methods of each class can be told apart, exactly the methods that are neither entered from
outside nor used are taken out.

A call that is left in the group still means what it meant. A static or special call means
one method, which it keeps in use. A virtual or interface call keeps every instance method
of its name and descriptor, so whatever an object's class inherits is found where it was.
-/

namespace ClassTrim

/-- Name and descriptor tell which method of a class is meant. -/
theorem MethodDecl.reference_eq_withOwner {method : MethodDecl} {reference : MethodRef}
    (owner : String) (named : method.isNamed reference.name reference.descriptor.text = true) :
    method.reference owner = reference.withOwner owner := by
  simp only [isNamed, Bool.and_eq_true, decide_eq_true_eq] at named
  obtain ⟨sameName, sameText⟩ := named
  rw [MethodDecl.reference, sameName, MethodDescriptor.eq_of_text sameText, MethodRef.withOwner]

namespace ClassGroup

/-- The references to all declared methods, in order. -/
def references (group : ClassGroup) : List MethodRef :=
  group.declared.map fun entry => entry.2.reference entry.1

/-- Classes have names of their own, and the methods of each class differ in name or
descriptor. -/
structure Unambiguous (group : ClassGroup) : Prop where
  classes : (group.classes.map ClassDecl.name).Nodup
  methods : ∀ decl ∈ group.classes,
    (decl.methods.map fun method => (method.name, method.descriptor.text)).Nodup

/-- The first instance method of a name and descriptor that an object of a class has, with
the class that declares it. -/
def dispatch (group : ClassGroup) (receiver : String) (target : MethodRef) :
    Option (String × MethodDecl) :=
  ((group.superclassChain receiver).flatMap fun decl =>
    (decl.methods.filter fun method =>
      method.isNamed target.name target.descriptor.text && !method.isStatic).map
        (decl.name, ·)).head?

/-- The class with only those of its methods that pass a test. -/
def filterMethods (keep : ClassDecl → MethodDecl → Bool) (decl : ClassDecl) : ClassDecl :=
  { decl with methods := decl.methods.filter (keep decl) }

variable {group : ClassGroup} {keep : ClassDecl → MethodDecl → Bool} {target : MethodRef}

/-- A class keeps its name and its ancestors with fewer methods. -/
theorem keepsLinks_filterMethods (keep : ClassDecl → MethodDecl → Bool) :
    KeepsLinks (filterMethods keep) :=
  ⟨fun _ => rfl, fun _ => rfl, fun _ => rfl⟩

/-- A class that still declares a method declared it before. -/
theorem declares_of_filterMethods {decl : ClassDecl}
    (declared : declares target (filterMethods keep decl) = true) :
    declares target decl = true := by
  simp only [declares, ClassDecl.method?, filterMethods, List.find?_isSome, List.mem_filter]
    at declared ⊢
  obtain ⟨method, ⟨member, _⟩, named⟩ := declared
  exact ⟨method, member, named⟩

/-- A class still declares a method that is kept. -/
theorem declares_filterMethods {decl : ClassDecl} (declared : declares target decl = true)
    (kept : ∀ method ∈ decl.methods, method.reference decl.name = target.withOwner decl.name →
      keep decl method = true) :
    declares target (filterMethods keep decl) = true := by
  simp only [declares, ClassDecl.method?, filterMethods, List.find?_isSome, List.mem_filter]
    at declared ⊢
  obtain ⟨method, member, named⟩ := declared
  exact ⟨method, ⟨member, kept method member (method.reference_eq_withOwner _ named)⟩, named⟩

/-- A reference whose meaning is kept still means the same. The search has two legs, along
the superclasses and then through interfaces; on each the first hit stays the first. -/
theorem resolveMethod_filterMethods
    (kept : ∀ decl ∈ group.classes, ∀ method ∈ decl.methods,
      group.resolveMethod target = some (method.reference decl.name) → keep decl method = true) :
    (group.mapClasses (filterMethods keep)).resolveMethod target = group.resolveMethod target := by
  have keeps := keepsLinks_filterMethods keep
  -- The first hit among the superclasses stays a hit.
  have onChain : (group.superclassChain target.owner).find?
        (declares target ∘ filterMethods keep) =
      (group.superclassChain target.owner).find? (declares target) := by
    apply find?_eq_of_fewer
    · exact fun decl _ => declares_of_filterMethods
    · intro decl found
      refine declares_filterMethods (List.find?_some found) fun method member same => ?_
      have inside := mem_of_class? (class?_of_mem_superclassChain (List.mem_of_find?_eq_some found))
      refine kept decl inside method member ?_
      simp only [resolveMethod, found, same]
  simp only [resolveMethod, superclassChain_mapClasses keeps, List.find?_map, onChain]
  cases found : (group.superclassChain target.owner).find? (declares target) with
  | some decl => rfl
  | none =>
    have starts : ((group.superclassChain target.owner).map (filterMethods keep)).flatMap
          (·.interfaces) =
        (group.superclassChain target.owner).flatMap (·.interfaces) := by
      rw [List.flatMap_map]
      rfl
    simp only [Option.map_none, starts,
      walk_mapClasses keeps (·.interfaces.reverse) fun decl => rfl]
    congr 1
    apply find?_eq_of_fewer
    · intro name _ declared
      rw [class?_mapClasses keeps, Option.any_map] at declared
      obtain ⟨decl, inside, declared⟩ := (Option.any_eq_true _ _).mp declared
      exact (Option.any_eq_true _ _).mpr ⟨decl, inside, declares_of_filterMethods declared⟩
    · intro name first
      have hit : (group.class? name).any (declares target) = true := by
        simpa using List.find?_some first
      obtain ⟨decl, inside, declared⟩ := (Option.any_eq_true _ _).mp hit
      rw [class?_mapClasses keeps, Option.any_map]
      refine (Option.any_eq_true _ _).mpr ⟨decl, inside, declares_filterMethods declared ?_⟩
      intro method member same
      refine kept decl (mem_of_class? inside) method member ?_
      rw [same, name_of_class? inside]
      simp only [resolveMethod, found, first, Option.map_some]

/-- Objects have the instance methods that they had, if all of the name and descriptor are
kept. -/
theorem dispatch_filterMethods (receiver : String)
    (kept : ∀ decl ∈ group.classes, ∀ method ∈ decl.methods,
      method.isNamed target.name target.descriptor.text = true → method.isStatic = false →
        keep decl method = true) :
    (group.mapClasses (filterMethods keep)).dispatch receiver target =
      group.dispatch receiver target := by
  simp only [dispatch, superclassChain_mapClasses (keepsLinks_filterMethods keep),
    List.flatMap_map]
  congr 1
  apply List.flatMap_congr
  intro decl member
  have inside := mem_of_class? (class?_of_mem_superclassChain member)
  simp only [filterMethods, List.filter_filter]
  congr 1
  apply List.filter_congr
  intro method declared
  cases meant : method.isNamed target.name target.descriptor.text && !method.isStatic with
  | false => rw [Bool.false_and]
  | true =>
    simp only [Bool.and_eq_true, Bool.not_eq_true'] at meant
    rw [kept decl inside method declared meant.1 meant.2, Bool.and_true]

/-- The classes without the methods that some references name. -/
def dropMethods (doomed : List MethodRef) : ClassDecl → ClassDecl :=
  filterMethods fun decl method => !doomed.contains (method.reference decl.name)

/-- Where no method is named none is dropped. -/
theorem filter_eq_self_of_spared {doomed : List MethodRef} {owner : String}
    {methods : List MethodDecl} (spared : ∀ method ∈ methods, method.reference owner ∉ doomed) :
    methods.filter (fun method => !doomed.contains (method.reference owner)) = methods := by
  simpa using spared

/-- Nothing is dropped from classes that declare none of the methods. -/
theorem map_dropMethods_eq_self {doomed : List MethodRef} {classes : List ClassDecl}
    (spared : ∀ owner method, (owner, method) ∈ (mk classes).declared →
      method.reference owner ∉ doomed) :
    classes.map (dropMethods doomed) = classes := by
  have same : ∀ decl ∈ classes, dropMethods doomed decl = decl := by
    intro decl member
    have whole := filter_eq_self_of_spared fun method declares =>
      spared decl.name method (mem_declared.mpr ⟨decl, member, rfl, declares⟩)
    simp only [dropMethods, filterMethods, whole]
  rw [List.map_congr_left same, List.map_id']

/-- Methods may be dropped one after the other. -/
theorem mapClasses_dropMethods_cons (group : ClassGroup) (method : MethodRef)
    (rest : List MethodRef) :
    (group.mapClasses (dropMethods [method])).mapClasses (dropMethods rest) =
      group.mapClasses (dropMethods (method :: rest)) := by
  simp only [mapClasses, List.map_map]
  congr 2
  funext decl
  simp only [Function.comp_apply, dropMethods, filterMethods, List.filter_filter]
  congr 2
  funext other
  simp only [List.contains_cons, List.contains_nil, Bool.or_false, Bool.not_or, Bool.and_comm]

/-- A method that is not named among the dropped ones is still declared. -/
theorem mem_references_mapClasses {reference : MethodRef} {doomed : List MethodRef}
    (member : reference ∈ group.references) (spared : reference ∉ doomed) :
    reference ∈ (group.mapClasses (dropMethods doomed)).references := by
  obtain ⟨⟨owner, method⟩, declared, rfl⟩ := List.mem_map.mp member
  obtain ⟨decl, inside, rfl, declares⟩ := mem_declared.mp declared
  refine List.mem_map.mpr ⟨(decl.name, method), mem_declared.mpr ?_, rfl⟩
  refine ⟨dropMethods doomed decl, List.mem_map_of_mem inside, rfl, ?_⟩
  exact List.mem_filter.mpr ⟨declares, by simpa using spared⟩

namespace Unambiguous

/-- A class is told by its name. -/
theorem decl_eq (unambiguous : group.Unambiguous) {decl other : ClassDecl}
    (member : decl ∈ group.classes) (inside : other ∈ group.classes)
    (same : decl.name = other.name) : decl = other :=
  List.inj_on_of_nodup_map unambiguous.classes member inside same

/-- A method is told by its reference. -/
theorem method_eq (unambiguous : group.Unambiguous) {decl : ClassDecl} {method other : MethodDecl}
    (member : decl ∈ group.classes) (declares : method ∈ decl.methods)
    (inside : other ∈ decl.methods)
    (same : method.reference decl.name = other.reference decl.name) : method = other := by
  simp only [MethodDecl.reference, MethodRef.mk.injEq, true_and] at same
  refine List.inj_on_of_nodup_map (unambiguous.methods decl member) declares inside ?_
  simp only [same]

/-- No two methods of the group have the same reference. -/
theorem references_nodup (unambiguous : group.Unambiguous) : group.references.Nodup := by
  rw [references, declared, List.map_flatMap, List.nodup_flatMap]
  constructor
  · intro decl member
    rw [List.map_map]
    have apart : decl.methods.Nodup := (unambiguous.methods decl member).of_map
    exact List.Nodup.map_on
      (fun method declares other inside same => unambiguous.method_eq member declares inside same)
      apart
  · have apart := List.pairwise_map.mp unambiguous.classes
    refine apart.imp fun different => ?_
    simp only [Function.onFun, List.disjoint_left, List.mem_map]
    rintro reference ⟨entry, ⟨method, _, rfl⟩, rfl⟩ ⟨other, ⟨method', _, rfl⟩, same⟩
    exact different (congrArg MethodRef.owner same).symm

/-- Names stay apart when methods are dropped. -/
theorem mapClasses (unambiguous : group.Unambiguous) (keep : ClassDecl → MethodDecl → Bool) :
    (group.mapClasses (filterMethods keep)).Unambiguous := by
  constructor
  · simpa [ClassGroup.mapClasses, filterMethods, Function.comp_def] using unambiguous.classes
  · intro changed member
    obtain ⟨decl, inside, rfl⟩ := List.mem_map.mp member
    exact (unambiguous.methods decl inside).sublist (List.filter_sublist.map _)

/-- A declared method is found where it is declared. -/
theorem exists_removeMethod (unambiguous : group.Unambiguous) {owner : String}
    {method : MethodDecl} (member : (owner, method) ∈ group.declared) :
    ∃ found changed, group.removeMethod owner method.name method.descriptor.text =
      .ok (some found, changed) := by
  obtain ⟨decl, inside, rfl, declares⟩ := mem_declared.mp member
  have hasClass : (group.class? decl.name).isSome = true :=
    List.find?_isSome.mpr ⟨decl, inside, by simp⟩
  obtain ⟨other, found⟩ := Option.isSome_iff_exists.mp hasClass
  obtain rfl : decl = other :=
    unambiguous.decl_eq inside (mem_of_class? found) (name_of_class? found).symm
  have hasMethod : (decl.method? method.name method.descriptor.text).isSome = true :=
    List.find?_isSome.mpr ⟨method, declares, by simp [MethodDecl.isNamed]⟩
  obtain ⟨first, declared⟩ := Option.isSome_iff_exists.mp hasMethod
  exact ⟨first, group.update decl.name (·.eraseMethod method.name method.descriptor.text),
    by simp only [removeMethod, found, declared]⟩

end Unambiguous

/-- Where no two methods have the same reference, emptying a place drops one reference. -/
theorem mapClasses_dropMethods_hold {site : Site} {method : MethodDecl}
    (apart : (site.hold [method]).references.Nodup) :
    (site.hold [method]).mapClasses (dropMethods [method.reference site.owner]) =
      site.hold [] := by
  have split : (site.hold [method]).references =
      site.earlier.map (fun entry => entry.2.reference entry.1) ++
        method.reference site.owner ::
          site.later.map (fun entry => entry.2.reference entry.1) := by
    rw [references, Site.declared_hold]
    simp
  rw [split, List.nodup_middle, List.nodup_cons, List.mem_append, not_or] at apart
  obtain ⟨⟨notEarlier, notLater⟩, _⟩ := apart
  have sparedEarlier : ∀ owner other, (owner, other) ∈ site.earlier →
      other.reference owner ≠ method.reference site.owner :=
    fun owner other member same => notEarlier (List.mem_map.mpr ⟨(owner, other), member, same⟩)
  have sparedLater : ∀ owner other, (owner, other) ∈ site.later →
      other.reference owner ≠ method.reference site.owner :=
    fun owner other member same => notLater (List.mem_map.mpr ⟨(owner, other), member, same⟩)
  have front : site.front.map (dropMethods [method.reference site.owner]) = site.front :=
    map_dropMethods_eq_self fun owner other member => by
      simpa using sparedEarlier owner other (List.mem_append_left _ member)
  have rear : site.rear.map (dropMethods [method.reference site.owner]) = site.rear :=
    map_dropMethods_eq_self fun owner other member => by
      simpa using sparedLater owner other (List.mem_append_right _ member)
  have holder : dropMethods [method.reference site.owner] (site.holder [method]) =
      site.holder [] := by
    have before := filter_eq_self_of_spared fun other member => List.mem_singleton.not.mpr
      (sparedEarlier site.owner other (List.mem_append_right _ (List.mem_map_of_mem member)))
    have behind := filter_eq_self_of_spared fun other member => List.mem_singleton.not.mpr
      (sparedLater site.owner other (List.mem_append_left _ (List.mem_map_of_mem member)))
    have emptied : [method].filter (fun other =>
        !(List.contains [method.reference site.owner] (other.reference site.owner))) = [] := by
      simp
    simp only [Site.owner] at before behind emptied
    simp only [dropMethods, filterMethods, Site.holder, Site.owner, List.filter_append, before,
      behind, emptied]
  simp only [Site.hold, mapClasses, List.map_append, List.map_cons, front, rear, holder]

end ClassGroup

namespace Usage

variable {group : ClassGroup} {doomed : List MethodRef}

/-- Removal takes methods out and puts nothing in; what it returns is what is missing, and
fields are not touched. -/
theorem removeMethods_accounts (group : ClassGroup) (doomed : List MethodRef) :
    (removeMethods group doomed).2.declared.Sublist group.declared ∧
      (removeMethods group doomed).2.methodCount + (removeMethods group doomed).1.length =
        group.methodCount ∧
      (removeMethods group doomed).2.fieldCount = group.fieldCount := by
  induction doomed generalizing group with
  | nil => exact ⟨.refl _, rfl, rfl⟩
  | cons reference rest ih =>
    cases outcome : group.removeMethod reference.owner reference.name reference.descriptor.text with
    | error fault => simpa only [removeMethods, outcome] using ih group
    | ok found =>
      obtain ⟨entry, changed⟩ := found
      cases entry with
      | none => simpa only [removeMethods, outcome] using ih group
      | some method =>
        obtain ⟨site, -, -, rfl, rfl⟩ := ClassGroup.exists_site_of_removeMethod outcome
        obtain ⟨fewer, counted, fields⟩ := ih (site.hold [])
        have shorter : (site.hold []).declared.Sublist (site.hold [method]).declared := by
          simp [Site.declared_hold]
        have lengths : (site.hold []).methodCount + 1 = (site.hold [method]).methodCount := by
          simp only [ClassGroup.methodCount_eq, Site.declared_hold, List.length_append,
            List.length_map, List.length_nil, List.length_cons]
          omega
        simp only [removeMethods, outcome, List.length_cons]
        refine ⟨fewer.trans shorter, by omega, ?_⟩
        rw [fields, Site.fieldCount_hold]

/-- A removal of unused methods leaves declarations that were there before, and every method that is
gone is listed once; fields stay. -/
theorem removeUnusedMethods_accounts (group : ClassGroup) :
    (removeUnusedMethods group).2.declared.Sublist group.declared ∧
      (removeUnusedMethods group).2.methodCount + (removeUnusedMethods group).1.length =
        group.methodCount ∧
      (removeUnusedMethods group).2.fieldCount = group.fieldCount :=
  removeMethods_accounts group _

/-- Where methods can be told apart, declared methods are all removed and the others stay. -/
theorem removeMethods_eq (unambiguous : group.Unambiguous)
    (declared : ∀ reference ∈ doomed, reference ∈ group.references) (once : doomed.Nodup) :
    removeMethods group doomed = (doomed, group.mapClasses (ClassGroup.dropMethods doomed)) := by
  induction doomed generalizing group with
  | nil =>
    have untouched : group.classes.map (ClassGroup.dropMethods []) = group.classes :=
      ClassGroup.map_dropMethods_eq_self fun _ _ _ => List.not_mem_nil
    simp only [removeMethods, ClassGroup.mapClasses, untouched]
  | cons reference rest ih =>
    obtain ⟨⟨owner, method⟩, member, rfl⟩ := List.mem_map.mp (declared reference List.mem_cons_self)
    obtain ⟨found, changed, removed⟩ := unambiguous.exists_removeMethod member
    obtain ⟨site, rfl, named, held, emptied⟩ := ClassGroup.exists_site_of_removeMethod removed
    have sameReference : found.reference site.owner =
        (method.reference site.owner).withOwner site.owner :=
      found.reference_eq_withOwner site.owner named
    have dropped : changed =
        group.mapClasses (ClassGroup.dropMethods [method.reference site.owner]) := by
      have apart := unambiguous.references_nodup
      rw [held] at apart
      rw [emptied, held]
      rw [show method.reference site.owner = found.reference site.owner from sameReference.symm,
        ClassGroup.mapClasses_dropMethods_hold apart]
    obtain ⟨notAgain, onceLater⟩ := List.nodup_cons.mp once
    have unambiguousLater : changed.Unambiguous := dropped ▸ unambiguous.mapClasses _
    have declaredLater : ∀ other ∈ rest, other ∈ changed.references := by
      intro other inside
      rw [dropped]
      refine ClassGroup.mem_references_mapClasses
        (declared other (List.mem_cons_of_mem _ inside)) ?_
      exact List.mem_singleton.not.mpr fun same => notAgain (same ▸ inside)
    have later := ih unambiguousLater declaredLater onceLater
    have step : group.removeMethod (method.reference site.owner).owner
        (method.reference site.owner).name (method.reference site.owner).descriptor.text =
        .ok (some found, changed) := removed
    simp only [removeMethods, step, later]
    rw [dropped, ClassGroup.mapClasses_dropMethods_cons]

/-- A method is listed as unused if it is neither entered from outside nor used. -/
theorem mem_unusedMethods {usage : MethodUsage} {reference : MethodRef} :
    reference ∈ unusedMethods group usage ↔
      ∃ decl ∈ group.classes, ∃ method ∈ decl.methods,
        (isEntryPoint group decl method || isUsed usage decl.name method) = false ∧
          method.reference decl.name = reference := by
  simp only [unusedMethods, ClassGroup.methods, List.mem_map, List.mem_filter, List.mem_flatMap,
    Prod.exists, Bool.and_eq_true, Bool.not_eq_true', Bool.or_eq_false_iff]
  constructor
  · rintro ⟨decl, method, ⟨⟨other, inside, declared, declares, same⟩, outside, unused⟩, rfl⟩
    obtain ⟨rfl, rfl⟩ := Prod.mk.inj same
    exact ⟨other, inside, declared, declares, ⟨outside, unused⟩, rfl⟩
  · rintro ⟨decl, inside, method, declares, ⟨outside, unused⟩, rfl⟩
    exact ⟨decl, method, ⟨⟨decl, inside, method, declares, rfl⟩, outside, unused⟩, rfl⟩

/-- Unused methods are listed once. -/
theorem unusedMethods_nodup (unambiguous : group.Unambiguous) (usage : MethodUsage) :
    (unusedMethods group usage).Nodup := by
  have fewer : (unusedMethods group usage).Sublist group.references := by
    have whole : group.methods.map (fun entry => entry.2.reference entry.1.name) =
        group.references := by
      simp [ClassGroup.methods, ClassGroup.references, ClassGroup.declared, List.map_flatMap,
        Function.comp_def]
    rw [← whole]
    exact List.filter_sublist.map _
  exact unambiguous.references_nodup.sublist fewer

/-- What is left of a class: the methods that are entered from outside or used. -/
def keepMethods (group : ClassGroup) : ClassDecl → ClassDecl :=
  ClassGroup.filterMethods fun decl method =>
    isEntryPoint group decl method || isUsed (usedMethods group) decl.name method

/-- Where methods can be told apart, the unused methods are removed and the others stay. -/
theorem removeUnusedMethods_eq (unambiguous : group.Unambiguous) :
    removeUnusedMethods group =
      (unusedMethods group (usedMethods group), group.mapClasses (keepMethods group)) := by
  have listed : ∀ reference ∈ unusedMethods group (usedMethods group),
      reference ∈ group.references := by
    intro reference member
    obtain ⟨decl, inside, method, declares, -, rfl⟩ := mem_unusedMethods.mp member
    exact List.mem_map.mpr
      ⟨(decl.name, method), ClassGroup.mem_declared.mpr ⟨decl, inside, rfl, declares⟩, rfl⟩
  have removed := removeMethods_eq unambiguous listed (unusedMethods_nodup unambiguous _)
  rw [removeUnusedMethods, removed, Prod.mk.injEq]
  refine ⟨rfl, congrArg ClassGroup.mk (List.map_congr_left fun decl inside => ?_)⟩
  simp only [ClassGroup.dropMethods, keepMethods, ClassGroup.filterMethods]
  congr 1
  apply List.filter_congr
  intro method declares
  -- A reference on the list is that of an unused method, and no other method has it.
  have listedIff : method.reference decl.name ∈ unusedMethods group (usedMethods group) ↔
      (isEntryPoint group decl method || isUsed (usedMethods group) decl.name method) = false := by
    rw [mem_unusedMethods]
    constructor
    · rintro ⟨other, member, found, declared, unused, same⟩
      obtain rfl := unambiguous.decl_eq member inside (congrArg MethodRef.owner same)
      obtain rfl := unambiguous.method_eq member declared declares same
      exact unused
    · exact fun unused => ⟨decl, inside, method, declares, unused, rfl⟩
  cases kept : isEntryPoint group decl method || isUsed (usedMethods group) decl.name method with
  | false => simpa using listedIff.mpr kept
  | true => simpa [kept] using listedIff

/-- Removal leaves no call that was not there. -/
theorem mem_ops_of_removeUnusedMethods {op : Op} (member : op ∈ (removeUnusedMethods group).2.ops) :
    op ∈ group.ops := by
  rw [ClassGroup.ops_eq, List.mem_flatMap] at member ⊢
  obtain ⟨entry, declared, inside⟩ := member
  exact ⟨entry, (removeUnusedMethods_accounts group).1.subset declared, inside⟩

/-- The method that a static or special call means is used. -/
theorem isUsed_of_directTarget? {op : Op} {owner : String} {method : MethodDecl}
    (member : op ∈ group.ops) (meant : directTarget? group op = some (method.reference owner)) :
    isUsed (usedMethods group) owner method = true := by
  have listed : method.reference owner ∈ (usedMethods group).direct :=
    List.mem_eraseDups.mpr (List.mem_filterMap.mpr ⟨op, member, meant⟩)
  simp [isUsed, listed]

/-- Every instance method of the name and descriptor of a virtual or interface call is
used. -/
theorem isUsed_of_dispatchedTarget? {op : Op} {owner : String} {method : MethodDecl}
    (member : op ∈ group.ops)
    (meant : dispatchedTarget? op = some (method.name, method.descriptor.text))
    (onInstances : method.isStatic = false) :
    isUsed (usedMethods group) owner method = true := by
  have listed : (method.name, method.descriptor.text) ∈ (usedMethods group).dispatched :=
    List.mem_eraseDups.mpr (List.mem_filterMap.mpr ⟨op, member, meant⟩)
  simp [isUsed, listed, onInstances]

/-- A call of the group without dispatch leads where it led before unused methods were dropped. -/
theorem resolveMethod_keepMethods {op : Op} {target : MethodRef} (member : op ∈ group.ops)
    (direct : directTarget? group op = group.resolveMethod target) :
    (group.mapClasses (keepMethods group)).resolveMethod target = group.resolveMethod target := by
  apply ClassGroup.resolveMethod_filterMethods
  intro decl _ method _ meant
  rw [isUsed_of_directTarget? member (direct.trans meant), Bool.or_true]

/-- A call of the group with dispatch finds in every class what it found before unused methods were
dropped. -/
theorem dispatch_keepMethods {op : Op} {target : MethodRef} (member : op ∈ group.ops)
    (dispatched : dispatchedTarget? op = some (target.name, target.descriptor.text))
    (receiver : String) :
    (group.mapClasses (keepMethods group)).dispatch receiver target =
      group.dispatch receiver target := by
  apply ClassGroup.dispatch_filterMethods
  intro decl _ method _ named onInstances
  simp only [MethodDecl.isNamed, Bool.and_eq_true, decide_eq_true_eq] at named
  have meant : dispatchedTarget? op = some (method.name, method.descriptor.text) := by
    rw [dispatched, named.1, named.2]
  rw [isUsed_of_dispatchedTarget? member meant onInstances, Bool.or_true]

/-- Where classes and the methods of each class can be told apart, removal takes out exactly
the methods that are neither entered from outside nor used, and changes nothing else; what
is returned is what is missing. A static or special call that is left still means the same
method, and for a virtual or interface call an object of any class still has the same
method. -/
theorem removeUnusedMethods_exact (group : ClassGroup) (unambiguous : group.Unambiguous) :
    (removeUnusedMethods group).2.classes =
        (group.classes.map fun decl =>
          { decl with
            methods := decl.methods.filter fun method =>
              isEntryPoint group decl method || isUsed (usedMethods group) decl.name method }) ∧
      (removeUnusedMethods group).2.methodCount + (removeUnusedMethods group).1.length =
        group.methodCount ∧
      (∀ target, (.invoke .static target ∈ (removeUnusedMethods group).2.ops ∨
          .invoke .special target ∈ (removeUnusedMethods group).2.ops) →
        (removeUnusedMethods group).2.resolveMethod target = group.resolveMethod target) ∧
      ∀ target, (.invoke .virtual target ∈ (removeUnusedMethods group).2.ops ∨
          .invoke .interface target ∈ (removeUnusedMethods group).2.ops) →
        ∀ receiver, (removeUnusedMethods group).2.dispatch receiver target =
          group.dispatch receiver target := by
  have trimmed := removeUnusedMethods_eq unambiguous
  refine ⟨by rw [trimmed]; rfl, (removeUnusedMethods_accounts group).2.1, ?_, ?_⟩
  · rintro target (left | left)
    all_goals
      have member := mem_ops_of_removeUnusedMethods left
      rw [trimmed]
      exact resolveMethod_keepMethods member rfl
  · rintro target (left | left) receiver
    all_goals
      have member := mem_ops_of_removeUnusedMethods left
      rw [trimmed]
      exact dispatch_keepMethods member rfl receiver

/-- The signature of methods that take nothing and return a number. -/
def toNumber : MethodDescriptor :=
  ⟨"()I", ⟨[], some .int⟩, by decide +kernel⟩

/-- A method that takes nothing and returns a constant. -/
def constantly (name : String) (access : UInt16) (value : Int32) : MethodDecl :=
  ⟨name, toNumber, access, some (.ofPlaced 0 [(.ldc (.int value), 0), (.ret (some .int), 2)])⟩

/-- An initializer that calls what its class inherits. -/
def inheritedCalls : MethodDecl :=
  ⟨"<clinit>", toNumber, 8, some (.ofPlaced 1
    [(.load .reference 0, 0), (.invoke .virtual ⟨"Square", "area", toNumber⟩, 1),
      (.invoke .static ⟨"Square", "unit", toNumber⟩, 4), (.ret (some .int), 7)])⟩

/-- Squares are shapes, and use what shapes have. -/
def shapes : ClassGroup :=
  ⟨[⟨"Shape", some "java/lang/Object", [], 1, [],
      [constantly "area" 1 0, constantly "spare" 8 2, constantly "unit" 8 1]⟩,
    ⟨"Square", some "Shape", [], 1, [], [inheritedCalls]⟩]⟩

/-- The method that nobody calls is removed. The calls of inherited methods are still there
and still reach them. -/
theorem removeUnusedMethods_exact_shapes :
    shapes.Unambiguous ∧
      ⟨"Shape", "spare", toNumber⟩ ∈ (removeUnusedMethods shapes).1 ∧
      (∀ op ∈ inheritedCalls.ops, op ∈ (removeUnusedMethods shapes).2.ops) ∧
      (removeUnusedMethods shapes).2.resolveMethod ⟨"Square", "unit", toNumber⟩ =
        some ⟨"Shape", "unit", toNumber⟩ ∧
      (removeUnusedMethods shapes).2.dispatch "Square" ⟨"Square", "area", toNumber⟩ =
        some ("Shape", constantly "area" 1 0) := by
  have unambiguous : shapes.Unambiguous := ⟨by decide, by decide⟩
  have above : shapes.superclassChain "Square" = shapes.classes.reverse := by
    simp [ClassGroup.superclassChain, ClassGroup.walk_fresh, ClassGroup.walk, shapes,
      ClassGroup.class?]
  have meant : shapes.resolveMethod ⟨"Square", "unit", toNumber⟩ =
      some ⟨"Shape", "unit", toNumber⟩ := by
    rw [ClassGroup.resolveMethod, above]
    decide +kernel
  have reached : shapes.dispatch "Square" ⟨"Square", "area", toNumber⟩ =
      some ("Shape", constantly "area" 1 0) := by
    rw [ClassGroup.dispatch, above]
    decide +kernel
  have used : usedMethods shapes = ⟨[⟨"Shape", "unit", toNumber⟩], [("area", "()I")]⟩ := by
    have calls : shapes.ops = [.ldc (.int 0), .ret (some .int), .ldc (.int 2), .ret (some .int),
        .ldc (.int 1), .ret (some .int), .load .reference 0,
        .invoke .virtual ⟨"Square", "area", toNumber⟩,
        .invoke .static ⟨"Square", "unit", toNumber⟩, .ret (some .int)] := rfl
    simp only [usedMethods, calls, List.filterMap, directTarget?, dispatchedTarget?, meant]
    rfl
  obtain ⟨left, counted, direct, dispatched⟩ := removeUnusedMethods_exact shapes unambiguous
  have stays : ∀ op ∈ inheritedCalls.ops, op ∈ (removeUnusedMethods shapes).2.ops := by
    intro op inside
    rw [ClassGroup.ops_eq, List.mem_flatMap]
    refine ⟨("Square", inheritedCalls), ClassGroup.mem_declared.mpr ?_, inside⟩
    rw [left]
    exact ⟨_, List.mem_map_of_mem (List.mem_cons_of_mem _ List.mem_cons_self), rfl,
      List.mem_filter.mpr ⟨List.mem_cons_self, rfl⟩⟩
  have removed : ⟨"Shape", "spare", toNumber⟩ ∈ (removeUnusedMethods shapes).1 := by
    rw [removeUnusedMethods_eq unambiguous, used]
    refine mem_unusedMethods.mpr ⟨_, List.mem_cons_self, constantly "spare" 8 2,
      List.mem_cons_of_mem _ List.mem_cons_self, ?_, rfl⟩
    decide
  refine ⟨unambiguous, removed, stays, ?_, ?_⟩
  · exact (direct _ (.inl (stays _ (by decide)))).trans meant
  · exact (dispatched _ (.inl (stays _ (by decide))) _).trans reached

end Usage

end ClassTrim
