import ClassTrim.Proofs.Hierarchy.Preorder

/-!
# What a method reference means

A method is looked up on the superclass chain of the class that a reference names, and on the
chain the nearest class that declares it decides. If there is none, it is looked up in the
superinterfaces: what the classes of the chain implement, and what these interfaces extend. The
chain stops at a class that it has passed, and the search through the interfaces follows no name
twice; no declaring class is missed on that account.
-/

namespace ClassTrim

/-- Whether a class declares a method with the name and the descriptor of a reference. -/
def ClassDecl.Declares (decl : ClassDecl) (method : MethodRef) : Prop :=
  ∃ declared ∈ decl.methods, declared.name = method.name ∧ declared.descriptor = method.descriptor

namespace ClassGroup

variable {group : ClassGroup} {method : MethodRef} {decl : ClassDecl} {owner name other : String}
  {path names : List String}

/-- The test whether a class declares a method tells the truth. -/
theorem declares_iff : declares method decl = true ↔ decl.Declares method := by
  have same : ∀ declared : MethodDecl,
      declared.isNamed method.name method.descriptor.text = true ↔
        declared.name = method.name ∧ declared.descriptor = method.descriptor := by
    intro declared
    simp only [MethodDecl.isNamed, Bool.and_eq_true, decide_eq_true_eq]
    exact and_congr_right fun _ => ⟨MethodDescriptor.eq_of_text, fun alike => by rw [alike]⟩
  simp only [declares, ClassDecl.method?, List.find?_isSome, same, ClassDecl.Declares]

/-- The class that lies a number of superclass links above the class of a name. -/
def superclass? (group : ClassGroup) : Nat → String → Option ClassDecl
  | 0, name => group.class? name
  | above + 1, name => ((group.class? name).bind (·.superName)).bind (group.superclass? above)

/-- A class is on the chain exactly if it lies some number of links above the name. -/
theorem mem_superclassChain :
    decl ∈ group.superclassChain name ↔ ∃ above, group.superclass? above name = some decl := by
  simp only [superclassChain, List.mem_filterMap, mem_walk, List.mem_singleton, exists_eq_left]
  constructor
  · rintro ⟨last, reaches, found⟩
    induction reaches using Relation.ReflTransGen.head_induction_on with
    | refl => exact ⟨0, found⟩
    | head linked _ ih =>
      obtain ⟨lower, inside, parent⟩ := linked
      obtain ⟨above, higher⟩ := ih
      exact ⟨above + 1, by simp [superclass?, inside, Option.mem_toList.mp parent, higher]⟩
  · rintro ⟨above, found⟩
    induction above generalizing name with
    | zero => exact ⟨name, .refl, found⟩
    | succ above ih =>
      obtain ⟨parent, listed, higher⟩ := Option.bind_eq_some_iff.mp found
      obtain ⟨lower, inside, isParent⟩ := Option.bind_eq_some_iff.mp listed
      obtain ⟨last, reaches, here⟩ := ih higher
      exact ⟨last, .head ⟨lower, inside, Option.mem_toList.mpr isParent⟩ reaches, here⟩

/-- By superclass links, a class comes to its superclass and to nothing else. -/
theorem next_superName (name : String) :
    group.next (·.superName.toList) name = ((group.class? name).bind (·.superName)).toList := by
  cases found : group.class? name <;> simp [next, found]

/-- The first hit on the way up from a name has only misses below it. -/
theorem nearest_of_find?_preorder {hit : ClassDecl → Bool}
    (found : (group.preorder (·.superName.toList) path [name]).find?
      (fun above => (group.class? above).any hit) = some other) :
    ∃ above decl, group.superclass? above name = some decl ∧ group.class? other = some decl ∧
      hit decl = true ∧
      ∀ below < above, ∀ nearer, group.superclass? below name = some nearer →
        hit nearer = false := by
  generalize single : [name] = names at found
  induction path, names using preorder.induct group (·.superName.toList) generalizing name with
  | case1 path => cases single
  | case2 path name rest onPath ih =>
    cases single
    simp [preorder_known onPath, preorder] at found
  | case3 path name rest fresh behind beside =>
    cases single
    rw [preorder_fresh fresh, List.find?_cons] at found
    split at found
    · next here =>
      cases found
      obtain ⟨decl, inside, hits⟩ := Option.any_eq_true _ _ |>.mp here
      refine ⟨0, decl, inside, inside, hits, ?_⟩
      intro below less
      exact absurd less (Nat.not_lt_zero below)
    · next missed =>
      cases up : (group.class? name).bind (·.superName) with
      | none => simp [next_superName, up, preorder] at found
      | some parent =>
        rw [preorder, List.append_nil] at found
        rw [next_superName, up, Option.toList_some] at behind found
        obtain ⟨above, decl, higher, inside, hits, nearest⟩ := behind rfl found
        refine ⟨above + 1, decl, by simpa [superclass?, up] using higher, inside, hits, ?_⟩
        intro below less nearer lower
        cases below with
        | zero =>
          rw [superclass?] at lower
          simpa [lower] using missed
        | succ below =>
          rw [superclass?, up] at lower
          exact nearest below (Nat.lt_of_succ_lt_succ less) nearer lower

/-- The first hit on the superclass chain is the nearest one. -/
theorem nearest_of_find?_superclassChain {hit : ClassDecl → Bool}
    (found : (group.superclassChain name).find? hit = some decl) :
    ∃ above, group.superclass? above name = some decl ∧
      ∀ below < above, ∀ nearer, group.superclass? below name = some nearer →
        hit nearer = false := by
  rw [superclassChain, List.find?_filterMap, find?_walk] at found
  obtain ⟨last, first, inside⟩ := Option.bind_eq_some_iff.mp found
  obtain ⟨above, other, higher, here, _, nearest⟩ := nearest_of_find?_preorder first
  cases inside.symm.trans here
  exact ⟨above, higher, nearest⟩

/-- Whether a name is that of an interface of a class on the superclass chain, or of one that
such an interface extends. Interfaces that extend others are classes of the group. -/
def Superinterface (group : ClassGroup) (owner name : String) : Prop :=
  ∃ decl ∈ group.superclassChain owner, ∃ direct ∈ decl.interfaces,
    group.Reaches (·.interfaces) direct name

/-- The order of interfaces does not decide what is linked. -/
theorem linked_reverse :
    group.Linked (·.interfaces.reverse) = group.Linked (·.interfaces) := by
  funext name other
  simp only [Linked, List.mem_reverse]

/-- The search through the interfaces meets exactly the superinterfaces. -/
theorem mem_walk_interfaces :
    name ∈ group.walk (·.interfaces.reverse)
        ((group.superclassChain owner).flatMap (·.interfaces)).reverse [] ↔
      group.Superinterface owner name := by
  simp only [mem_walk, List.mem_reverse, List.mem_flatMap, Superinterface, Reaches, linked_reverse]
  constructor
  · rintro ⟨direct, ⟨decl, onChain, listed⟩, reaches⟩
    exact ⟨decl, onChain, direct, listed, reaches⟩
  · rintro ⟨decl, onChain, direct, listed, reaches⟩
    exact ⟨direct, ⟨decl, onChain, listed⟩, reaches⟩

/-- Where a class on the chain declares the method, the first one that does is meant. -/
theorem resolveMethod_of_find?
    (found : (group.superclassChain method.owner).find? (declares method) = some decl) :
    group.resolveMethod method = some (method.withOwner decl.name) := by
  simp only [resolveMethod, found]

/-- Where no class on the chain does, the first interface of the search is meant that does. -/
theorem resolveMethod_of_forall_not
    (unclassed : ∀ decl ∈ group.superclassChain method.owner, ¬decl.Declares method) :
    group.resolveMethod method =
      ((group.walk (·.interfaces.reverse)
          ((group.superclassChain method.owner).flatMap (·.interfaces)).reverse []).find?
        fun name => (group.class? name).any (declares method)).map method.withOwner := by
  have none : (group.superclassChain method.owner).find? (declares method) = none := by
    rw [List.find?_eq_none]
    exact fun decl onChain hits => unclassed decl onChain (declares_iff.mp hits)
  simp only [resolveMethod, none]

/-- The test by name asks the class of this name, if the group has it. -/
theorem any_declares_iff : (group.class? name).any (declares method) = true ↔
    ∃ decl, group.class? name = some decl ∧ decl.Declares method := by
  simp only [Option.any_eq_true, declares_iff]

/-- Resolution ends in every hierarchy, cyclic ones included, and classes come before interfaces.
If a class on the superclass chain declares the method, the nearest one is meant. Otherwise the
reference resolves exactly if some superinterface in the group declares the method, and it is such
an interface that is meant. -/
theorem resolveMethod_prefers_classes (group : ClassGroup) (method : MethodRef) :
    ((∃ decl ∈ group.superclassChain method.owner, decl.Declares method) →
      ∃ above decl, decl ∈ group.superclassChain method.owner ∧
        group.superclass? above method.owner = some decl ∧ decl.Declares method ∧
        (∀ below < above, ∀ nearer, group.superclass? below method.owner = some nearer →
          ¬nearer.Declares method) ∧
        group.resolveMethod method = some (method.withOwner decl.name)) ∧
    ((∀ decl ∈ group.superclassChain method.owner, ¬decl.Declares method) →
      ((group.resolveMethod method).isSome = true ↔
        ∃ name decl, group.Superinterface method.owner name ∧ group.class? name = some decl ∧
          decl.Declares method) ∧
      ∀ found, group.resolveMethod method = some found →
        ∃ name decl, group.Superinterface method.owner name ∧ group.class? name = some decl ∧
          decl.Declares method ∧ found = method.withOwner name) := by
  constructor
  · rintro ⟨first, onChain, declared⟩
    have hit : ((group.superclassChain method.owner).find? (declares method)).isSome = true :=
      List.find?_isSome.mpr ⟨first, onChain, declares_iff.mpr declared⟩
    obtain ⟨decl, found⟩ := Option.isSome_iff_exists.mp hit
    obtain ⟨above, higher, nearest⟩ := nearest_of_find?_superclassChain found
    refine ⟨above, decl, List.mem_of_find?_eq_some found, higher,
      declares_iff.mp (List.find?_some found), ?_, resolveMethod_of_find? found⟩
    intro below less nearer lower declares
    have missed := nearest below less nearer lower
    rw [declares_iff.mpr declares] at missed
    cases missed
  · intro unclassed
    rw [resolveMethod_of_forall_not unclassed]
    constructor
    · rw [Option.isSome_map, List.find?_isSome]
      simp only [mem_walk_interfaces, any_declares_iff, exists_and_left]
    · intro found resolved
      obtain ⟨name, first, rfl⟩ := Option.map_eq_some_iff.mp resolved
      have hits : (group.class? name).any (declares method) = true := by
        simpa using List.find?_some first
      obtain ⟨decl, inside, declares⟩ := any_declares_iff.mp hits
      exact ⟨name, decl, mem_walk_interfaces.mp (List.mem_of_find?_eq_some first), inside,
        declares, rfl⟩

/-- The method that turns a wheel, as a member of a class. -/
def turn (owner : String) : MethodRef :=
  ⟨owner, "turn", "()F", ⟨[], some .float⟩, by
    simp only [Descriptor.readMethod, Descriptor.scanSignature, String.reduceToList,
      Descriptor.scanParameters]
    rfl⟩

/-- Two classes are above each other, and so are two interfaces. The interface that declares the
method is reached from the upper class, through the other one. -/
def wheels : ClassGroup :=
  ⟨[⟨"Rim", some "Hub", [], 1, [], []⟩,
    ⟨"Hub", some "Rim", ["Round"], 1, [], []⟩,
    ⟨"Round", none, ["Turned"], 513, [], []⟩,
    ⟨"Turned", none, ["Round"], 513, [], [⟨"turn", (turn "Turned").descriptor, 1025, none⟩]⟩]⟩

/-- The upper class comes back to the lower one, and the chain ends there. Both are passed by
before the search goes through the interfaces. -/
theorem resolveMethod_prefers_classes_wheels :
    (∀ decl ∈ wheels.superclassChain "Rim", ¬decl.Declares (turn "Rim")) ∧
      (wheels.resolveMethod (turn "Rim")).isSome = true ∧
      wheels.resolveMethod (turn "Turned") = some (turn "Turned") := by
  have declared : ∀ owner, ClassDecl.Declares
      ⟨"Turned", none, ["Round"], 513, [], [⟨"turn", (turn "Turned").descriptor, 1025, none⟩]⟩
      (turn owner) :=
    fun owner => ⟨_, List.mem_cons_self, rfl, rfl⟩
  have unclassed : ∀ decl ∈ wheels.superclassChain "Rim", ¬decl.Declares (turn "Rim") := by
    have walked : wheels.walk (·.superName.toList) ["Rim"] [] = ["Rim", "Hub"] := by
      simp [walk_fresh, walk, wheels, class?]
    rw [superclassChain, walked]
    simp [wheels, class?, ClassDecl.Declares]
  refine ⟨unclassed, ?_, ?_⟩
  · obtain ⟨resolves, _⟩ := (resolveMethod_prefers_classes wheels (turn "Rim")).2 unclassed
    refine resolves.mpr ⟨"Turned", _, ?_, rfl, declared _⟩
    refine ⟨_, mem_superclassChain.mpr ⟨1, rfl⟩, "Round", List.mem_cons_self, ?_⟩
    exact .single ⟨_, rfl, List.mem_cons_self⟩
  · obtain ⟨above, decl, _, higher, _, nearest, resolved⟩ := (resolveMethod_prefers_classes wheels
      (turn "Turned")).1 ⟨_, mem_superclassChain.mpr ⟨0, rfl⟩, declared _⟩
    cases above with
    | zero =>
      cases higher
      exact resolved
    | succ above => exact absurd (declared _) (nearest 0 (Nat.succ_pos _) _ rfl)

end ClassGroup

end ClassTrim
