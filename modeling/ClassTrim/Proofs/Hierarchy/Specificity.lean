import ClassTrim.Proofs.Hierarchy.MethodLookup

/-!
# How specific a resolved interface method is

Of two interfaces that declare a method, the one that extends the other is more specific. The
search through the superinterfaces goes depth first, takes the last of several interfaces first,
and stops at the first one that declares the method. It finds a maximally specific method exactly
if no list of interfaces has one that leads to a more specific declaration ahead of one that leads
to the method found. Where a list has, the less specific method is met first.
-/

namespace ClassTrim.ClassGroup

variable {group : ClassGroup} {links : ClassDecl → List String} {hit : String → Bool}
  {method : MethodRef} {owner name other start : String} {path names list : List String}

/-- Somewhere behind some names, in a list of links, one that leads to `name` stands ahead of one
that leads to `other`. -/
inductive Parts (group : ClassGroup) (links : ClassDecl → List String) (name other : String) :
    List String → Prop where
  | here {sooner later : String} {names : List String} :
      [sooner, later].Sublist names → group.Reaches links sooner name →
      group.Reaches links later other → Parts group links name other names
  | behind {via : String} {names : List String} :
      via ∈ names → Parts group links name other (group.next links via) →
      Parts group links name other names

/-- One more name in front parts nothing that was not parted. -/
theorem Parts.cons {head : String} (parts : group.Parts links name other names) :
    group.Parts links name other (head :: names) := by
  cases parts with
  | here order toName toOther => exact .here (order.cons head) toName toOther
  | behind member deeper => exact .behind (List.mem_cons_of_mem _ member) deeper

/-- If the first hit along the paths lies behind another hit, the paths to the two part, and the
first hit is on the side that comes sooner. -/
theorem parts_of_find?_preorder (acyclic : group.Acyclic links)
    (ahead : group.Ahead links path names)
    (first : (group.preorder links path names).find? hit = some name) (member : start ∈ names)
    (reaches : group.Reaches links start other) (hits : hit other = true)
    (below : Relation.TransGen (group.Linked links) other name) :
    group.Parts links name other names := by
  induction path, names using preorder.induct group links generalizing start with
  | case1 path => cases member
  | case2 path head rest onPath ih => exact absurd onPath (ahead.fresh acyclic)
  | case3 path head rest fresh behind beside =>
    rw [preorder_fresh fresh, List.find?_cons] at first
    split at first
    · -- The head is the first hit, and cannot lead to what leads to it.
      cases first
      rcases List.mem_cons.mp member with rfl | later
      · exact absurd (Relation.TransGen.trans_right reaches below) (acyclic _)
      · exact .here (List.singleton_sublist.mpr later |>.cons_cons _) .refl reaches
    · next missed =>
      have past : start = head → ∃ via ∈ group.next links head, group.Reaches links via other := by
        rintro rfl
        rcases reaches.cases_head with rfl | ⟨via, linked, onwards⟩
        · rw [hits] at missed
          cases missed
        · exact ⟨via, mem_next.mpr linked, onwards⟩
      rw [List.find?_append] at first
      cases deeper : (group.preorder links (head :: path) (group.next links head)).find? hit with
      | some found =>
        rw [deeper, Option.some_or] at first
        cases first
        rcases List.mem_cons.mp member with isHead | later
        · obtain ⟨via, linked, onwards⟩ := past isHead
          exact .behind List.mem_cons_self (behind ahead.behind deeper linked onwards)
        · obtain ⟨via, linked, onwards⟩ :=
            reaches_of_mem_preorder (List.mem_of_find?_eq_some deeper)
          exact .here (List.singleton_sublist.mpr later |>.cons_cons _)
            (.head (mem_next.mp linked) onwards) reaches
      | none =>
        rw [deeper, Option.none_or] at first
        rcases List.mem_cons.mp member with isHead | later
        · -- What lies behind the head was gone through without a hit.
          obtain ⟨via, linked, onwards⟩ := past isHead
          have along := ahead.behind.mem_preorder acyclic linked onwards
          exact absurd hits (List.find?_eq_none.mp deeper other along)
        · exact (beside ahead.beside first later reaches).cons

/-- Whether an interface extends another one, directly or by way of others. -/
def Extends (group : ClassGroup) : String → String → Prop :=
  Relation.TransGen (group.Linked (·.interfaces))

/-- The lists of interfaces that a search for the methods of a class goes through: what the
classes on its superclass chain implement, one after the other, and what each of its
superinterfaces extends. -/
inductive Listing (group : ClassGroup) (owner : String) : List String → Prop where
  | chain : Listing group owner ((group.superclassChain owner).flatMap (·.interfaces))
  | interface {name : String} {decl : ClassDecl} :
      group.Superinterface owner name → group.class? name = some decl →
      Listing group owner decl.interfaces

/-- Every list that a search goes through holds superinterfaces. -/
theorem Listing.superinterface (listing : group.Listing owner list) (member : name ∈ list) :
    group.Superinterface owner name := by
  cases listing with
  | chain =>
    obtain ⟨decl, onChain, direct⟩ := List.mem_flatMap.mp member
    exact ⟨decl, onChain, name, direct, .refl⟩
  | interface inherited found =>
    obtain ⟨decl, onChain, direct, listed, reaches⟩ := inherited
    exact ⟨decl, onChain, direct, listed, .tail reaches ⟨_, found, member⟩⟩

/-- What a superinterface extends is a superinterface. -/
theorem Superinterface.trans (inherited : group.Superinterface owner name)
    (reaches : group.Reaches (·.interfaces) name other) : group.Superinterface owner other := by
  obtain ⟨decl, onChain, direct, listed, before⟩ := inherited
  exact ⟨decl, onChain, direct, listed, before.trans reaches⟩

/-- The order of interfaces does not decide what is reached. -/
theorem reaches_reverse : group.Reaches (·.interfaces.reverse) = group.Reaches (·.interfaces) := by
  rw [Reaches, Reaches, linked_reverse]

/-- Lists are gone through from the back, so what comes sooner is listed later. -/
theorem Listing.exists_of_parts (listing : group.Listing owner list)
    (parts : group.Parts (·.interfaces.reverse) name other list.reverse) :
    ∃ list, group.Listing owner list ∧ ∃ former latter, [former, latter].Sublist list ∧
      group.Reaches (·.interfaces) latter name ∧ group.Reaches (·.interfaces) former other := by
  generalize backwards : list.reverse = names at parts
  induction parts generalizing list with
  | @here sooner later names order toName toOther =>
    rw [reaches_reverse] at toName toOther
    have listed : [later, sooner].Sublist list := by
      rw [← List.reverse_sublist, backwards]
      exact order
    exact ⟨list, listing, later, sooner, listed, toName, toOther⟩
  | @behind via names member deeper ih =>
    rw [← backwards, List.mem_reverse] at member
    cases found : group.class? via with
    | none =>
      have ended : group.next (·.interfaces.reverse) via = [] := by simp [next, found]
      rw [ended] at deeper
      rcases deeper with ⟨order, _, _⟩ | ⟨member, _⟩
      · cases order
      · cases member
    | some decl =>
      refine ih (.interface (listing.superinterface member) found) ?_
      simp [next, found]

/-- Whether an interface declares a method and extends another interface. -/
def Refines (group : ClassGroup) (method : MethodRef) (other name : String) : Prop :=
  (∃ decl, group.class? other = some decl ∧ decl.Declares method) ∧ group.Extends other name

/-- If no chain of ancestors leads back, no chain of interfaces does. -/
theorem Acyclic.interfaces (acyclic : group.Acyclic ancestorLinks) :
    group.Acyclic (·.interfaces) := by
  intro name loop
  refine acyclic name (Relation.TransGen.mono ?_ name name loop)
  rintro lower upper ⟨decl, found, listed⟩
  exact ⟨decl, found, List.mem_append_left _ listed⟩

/-- An answer that another superinterface refines was met ahead of it, in some list. -/
theorem exists_listing_of_refines (acyclic : group.Acyclic ancestorLinks)
    (unclassed : ∀ decl ∈ group.superclassChain method.owner, ¬decl.Declares method)
    (resolved : group.resolveMethod method = some (method.withOwner name))
    (inherited : group.Superinterface method.owner other)
    (refines : group.Refines method other name) :
    ∃ list, group.Listing method.owner list ∧ ∃ former latter, [former, latter].Sublist list ∧
      group.Reaches (·.interfaces) latter name ∧ group.Reaches (·.interfaces) former other := by
  obtain ⟨declared, below⟩ := refines
  rw [resolveMethod_of_forall_not unclassed, find?_walk] at resolved
  obtain ⟨found, first, same⟩ := Option.map_eq_some_iff.mp resolved
  obtain rfl : found = name := congrArg MethodRef.owner same
  obtain ⟨decl, onChain, direct, listed, reaches⟩ := inherited
  have start : direct ∈ ((group.superclassChain method.owner).flatMap (·.interfaces)).reverse :=
    List.mem_reverse.mpr (List.mem_flatMap.mpr ⟨decl, onChain, listed⟩)
  have backwards : group.Acyclic (·.interfaces.reverse) := by
    rw [Acyclic, linked_reverse]
    exact acyclic.interfaces
  have ahead : group.Ahead (·.interfaces.reverse) []
      ((group.superclassChain method.owner).flatMap (·.interfaces)).reverse := by
    simp [Ahead]
  rw [← reaches_reverse] at reaches
  rw [Extends, ← linked_reverse] at below
  exact Listing.chain.exists_of_parts
    (parts_of_find?_preorder backwards ahead first start reaches (any_declares_iff.mpr declared)
      below)

/-- Resolution by way of the interfaces, in an acyclic hierarchy. What is found is maximally
specific exactly if in every list that is searched, whatever leads to an interface that refines it
comes behind all that leads to itself. -/
theorem resolveMethod_maximal_iff (acyclic : group.Acyclic ancestorLinks)
    (unclassed : ∀ decl ∈ group.superclassChain method.owner, ¬decl.Declares method)
    (resolved : group.resolveMethod method = some (method.withOwner name)) :
    (∀ other, group.Superinterface method.owner other → ¬group.Refines method other name) ↔
      ∀ list, group.Listing method.owner list → ∀ former latter, [former, latter].Sublist list →
        group.Reaches (·.interfaces) latter name → ∀ other,
          group.Reaches (·.interfaces) former other → ¬group.Refines method other name := by
  constructor
  · intro maximal list listing former latter order _ other reaches
    have listed : former ∈ list := order.subset List.mem_cons_self
    exact maximal other ((listing.superinterface listed).trans reaches)
  · intro ordered other inherited refines
    obtain ⟨list, listing, former, latter, order, toName, toOther⟩ :=
      exists_listing_of_refines acyclic unclassed resolved inherited refines
    exact ordered list listing former latter order toName other toOther refines

/-- The method that a dog is heard by, as a member of a class. -/
def bark (owner : String) : MethodRef :=
  ⟨owner, "bark", "()J", ⟨[], some .long⟩, by
    simp only [Descriptor.readMethod, Descriptor.scanSignature, String.reduceToList,
      Descriptor.scanParameters]
    rfl⟩

/-- A default method that answers with a constant. -/
def barking (volume : Int64) : MethodDecl :=
  ⟨"bark", (bark "Dog").descriptor, 1,
    some (.ofPlaced 0 [(.ldc (.long volume), 0), (.ret (some .long), 3)])⟩

/-- Dogs implement two interfaces with a default method, and one of the two extends the other. -/
def kennel (listed : List String) : ClassGroup :=
  ⟨[⟨"Dog", some "java/lang/Object", listed, 33, [], []⟩,
    ⟨"Loud", some "java/lang/Object", ["Heard"], 1537, [], [barking 3]⟩,
    ⟨"Heard", some "java/lang/Object", [], 1537, [], [barking 2]⟩]⟩

/-- Above a dog there is no class of the group. -/
theorem superclassChain_kennel (listed : List String) :
    (kennel listed).superclassChain "Dog" =
      [⟨"Dog", some "java/lang/Object", listed, 33, [], []⟩] := by
  have walked : (kennel listed).walk (·.superName.toList) ["Dog"] [] =
      ["Dog", "java/lang/Object"] := by
    simp [walk_fresh, walk, kennel, class?]
  rw [superclassChain, walked]
  rfl

/-- No class on that chain declares the method. -/
theorem unclassed_kennel (listed : List String) :
    ∀ decl ∈ (kennel listed).superclassChain "Dog", ¬decl.Declares (bark "Dog") := by
  simp [superclassChain_kennel, ClassDecl.Declares]

/-- One of the two interfaces refines the other. -/
theorem refines_kennel (listed : List String) :
    (kennel listed).Refines (bark "Dog") "Loud" "Heard" :=
  ⟨⟨_, rfl, barking 3, List.mem_cons_self, rfl, rfl⟩, .single ⟨_, rfl, List.mem_cons_self⟩⟩

/-- Both interfaces declare the method, so the one that is listed last is found. -/
theorem resolveMethod_kennel (front : List String) (last : String)
    (declared : ((kennel (front ++ [last])).class? last).any (declares (bark "Dog")) = true) :
    (kennel (front ++ [last])).resolveMethod (bark "Dog") = some (bark last) := by
  have owner : (bark "Dog").owner = "Dog" := rfl
  rw [resolveMethod_of_forall_not (unclassed_kennel _), owner, superclassChain_kennel, find?_walk,
    List.flatMap_singleton, List.reverse_append, List.reverse_singleton, List.singleton_append,
    preorder_fresh (by simp)]
  simp only [List.find?_cons, declared]
  rfl

/-- Listed last, the less specific interface is searched first. Its method is what a dog is said
to be heard by, although the other interface overrides it. -/
theorem resolveMethod_kennel_overtaken :
    (kennel ["Loud", "Heard"]).Acyclic ancestorLinks ∧
      (∀ decl ∈ (kennel ["Loud", "Heard"]).superclassChain "Dog", ¬decl.Declares (bark "Dog")) ∧
      (kennel ["Loud", "Heard"]).resolveMethod (bark "Dog") = some (bark "Heard") ∧
      (kennel ["Loud", "Heard"]).Superinterface "Dog" "Loud" ∧
      (kennel ["Loud", "Heard"]).Refines (bark "Dog") "Loud" "Heard" := by
  refine ⟨acyclic_of_rank ["java/lang/Object", "Heard", "Loud", "Dog"].idxOf (by decide),
    unclassed_kennel _, ?_, ?_, refines_kennel _⟩
  · exact resolveMethod_kennel ["Loud"] "Heard" rfl
  · exact ⟨_, superclassChain_kennel _ ▸ List.mem_cons_self, "Loud", List.mem_cons_self, .refl⟩

/-- With the more specific interface listed last, nothing that is searched later refines it. -/
theorem resolveMethod_maximal_iff_kennel :
    (kennel ["Heard", "Loud"]).resolveMethod (bark "Dog") = some (bark "Loud") ∧
      ∀ other, (kennel ["Heard", "Loud"]).Superinterface "Dog" other →
        ¬(kennel ["Heard", "Loud"]).Refines (bark "Dog") other "Loud" := by
  have acyclic : (kennel ["Heard", "Loud"]).Acyclic ancestorLinks :=
    acyclic_of_rank ["java/lang/Object", "Heard", "Loud", "Dog"].idxOf (by decide)
  have resolved := resolveMethod_kennel ["Heard"] "Loud" rfl
  refine ⟨resolved, (resolveMethod_maximal_iff acyclic (unclassed_kennel _) resolved).mpr ?_⟩
  intro list listing former latter order _ other reaches refines
  have short : list.Sublist ["Heard", "Loud"] := by
    cases listing with
    | chain =>
      rw [show (bark "Dog").owner = "Dog" from rfl, superclassChain_kennel]
      exact .refl _
    | interface _ found =>
      have member := mem_of_class? found
      simp only [kennel, List.mem_cons, List.not_mem_nil, or_false] at member
      rcases member with rfl | rfl | rfl <;> decide
  cases (order.trans short).eq_of_length rfl
  -- The interface that is listed first extends nothing.
  obtain ⟨next, ⟨decl, found, listed⟩, _⟩ :=
    Relation.TransGen.head'_iff.mp (Relation.TransGen.trans_right reaches refines.2)
  cases found
  cases listed

end ClassTrim.ClassGroup
