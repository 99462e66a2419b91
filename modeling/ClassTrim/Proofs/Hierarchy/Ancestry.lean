import Mathlib.Data.List.Chain
import Mathlib.Data.List.Flatten
import ClassTrim.Proofs.Hierarchy.Preorder

/-!
# Library ancestors

Whether some ancestor of a class is library code can be asked in two ways. A walk meets every
ancestor, and its names are looked through afterwards. A search takes one pending name after the
other, passes over those it has visited, and ends with the first one that is library code.

`Search.step` is one round of the search and `Underway` what every round keeps: whatever waits is
an ancestor, and whatever a visited class links to was visited or waits. When nothing waits any
more, the visited names are therefore all the ancestors there are. Each round uses up a pending
name or the links of a class, so that their number bounds the rounds, in cyclic hierarchies as
well.
-/

namespace ClassTrim.ClassGroup

variable {group : ClassGroup} {name other : String}

/-- Whether a name is that of a class of the group whose superclass, or one of whose interfaces,
is another name. -/
def Extended (group : ClassGroup) (name other : String) : Prop :=
  ∃ decl, group.class? name = some decl ∧ (decl.superName = some other ∨ other ∈ decl.interfaces)

/-- Links to direct ancestors are what it means to extend. -/
theorem linked_ancestorLinks :
    group.Linked ancestorLinks name other ↔ group.Extended name other := by
  simp only [Linked, Extended, ancestorLinks, List.mem_append, Option.mem_toList, or_comm]

/-- Library code is what the group does not have, the root class apart. -/
theorem isLibrary_iff :
    group.isLibrary name = true ↔ group.class? name = none ∧ name ≠ StackType.objectName := by
  simp [isLibrary]

/-- The walk meets all ancestors, so that the question is about what a class reaches. -/
theorem hasLibraryAncestor_iff_reaches :
    group.hasLibraryAncestor name = true ↔
      ∃ last, group.Reaches ancestorLinks name last ∧ group.isLibrary last = true := by
  simp only [hasLibraryAncestor, List.any_eq_true, mem_walk, List.mem_singleton, exists_eq_left]

/-- What a class reaches lies at the end of a chain of superclasses and interfaces. -/
theorem reaches_iff_chain {last : String} :
    group.Reaches ancestorLinks name last ↔
      ∃ chain, List.IsChain group.Extended (name :: chain) ∧
        (name :: chain).getLast? = some last := by
  have sameLinks : group.Linked ancestorLinks = group.Extended :=
    funext fun name => funext fun other => propext linked_ancestorLinks
  rw [Reaches, sameLinks]
  constructor
  · intro reaches
    obtain ⟨chain, linked, ends⟩ := List.exists_isChain_cons_of_relationReflTransGen reaches
    exact ⟨chain, linked, by rw [List.getLast?_eq_getLast_of_ne_nil (List.cons_ne_nil _ _), ends]⟩
  · rintro ⟨chain, linked, ends⟩
    apply List.relationReflTransGen_of_exists_isChain_cons chain linked
    rw [List.getLast?_eq_getLast_of_ne_nil (List.cons_ne_nil _ _)] at ends
    exact Option.some.inj ends

/-- Where a search for library code stands: the names that are pending, the next one first, and
those that were visited. -/
structure Search where
  pending : List String
  visited : List String
deriving DecidableEq

namespace Search

/-- What a class adds to the pending names. Its superclass is pushed first, and its interfaces in
order; the next name is taken from the other end. -/
def pushed (decl : ClassDecl) : List String :=
  (decl.superName.toList ++ decl.interfaces).reverse

/-- One round, which gives the answer or a later stage. -/
def step (group : ClassGroup) (search : Search) : Bool ⊕ Search :=
  match search.pending with
  | [] => .inl false
  | name :: rest =>
    if name ∈ search.visited then .inr ⟨rest, search.visited⟩
    else
      match group.class? name with
      | some decl => .inr ⟨pushed decl ++ rest, name :: search.visited⟩
      | none =>
        if name ≠ StackType.objectName then .inl true
        else .inr ⟨rest, name :: search.visited⟩

/-- The answer, if it is given within a number of rounds. -/
def run (group : ClassGroup) : Nat → Search → Option Bool
  | 0, _ => none
  | rounds + 1, search =>
    match search.step group with
    | .inl answer => some answer
    | .inr next => run group rounds next

variable {rest visited : List String} {search : Search} {start : String}

/-- A name that was visited is passed over. -/
theorem step_known (known : name ∈ visited) :
    step group ⟨name :: rest, visited⟩ = .inr ⟨rest, visited⟩ :=
  if_pos known

/-- A new name of library code ends the search. -/
theorem step_library (fresh : name ∉ visited) (library : group.isLibrary name = true) :
    step group ⟨name :: rest, visited⟩ = .inl true := by
  obtain ⟨outside, other⟩ := isLibrary_iff.mp library
  simp [step, fresh, outside, other]

/-- Any other name is visited; outside the group it adds nothing. -/
theorem step_fresh (fresh : name ∉ visited) (inside : ¬group.isLibrary name = true) :
    step group ⟨name :: rest, visited⟩ =
      .inr ⟨group.next pushed name ++ rest, name :: visited⟩ := by
  rw [isLibrary_iff, not_and, not_not] at inside
  cases found : group.class? name with
  | none =>
    obtain rfl := inside found
    simp [step, fresh, found, ClassGroup.next]
  | some decl => simp [step, fresh, found, ClassGroup.next]

/-- What a class adds to the pending names are its direct ancestors. -/
theorem mem_next_pushed :
    other ∈ group.next pushed name ↔ group.Linked ancestorLinks name other := by
  rw [mem_next]
  simp only [Linked, pushed, ancestorLinks, List.mem_reverse, List.mem_append, or_comm]

/-- Whether a name was visited or waits. -/
def Knows (search : Search) (name : String) : Prop :=
  name ∈ search.visited ∨ name ∈ search.pending

/-- Passing over a name that was visited forgets nothing. -/
theorem Knows.pass (knows : Knows ⟨name :: rest, visited⟩ other) (known : name ∈ visited) :
    Knows ⟨rest, visited⟩ other := by
  rcases knows with before | waits
  · exact .inl before
  · rcases List.mem_cons.mp waits with rfl | later
    · exact .inl known
    · exact .inr later

/-- Visiting a name forgets nothing. -/
theorem Knows.visit (knows : Knows ⟨name :: rest, visited⟩ other) (links : List String) :
    Knows ⟨links ++ rest, name :: visited⟩ other := by
  rcases knows with before | waits
  · exact .inl (List.mem_cons_of_mem _ before)
  · rcases List.mem_cons.mp waits with rfl | later
    · exact .inl List.mem_cons_self
    · exact .inr (List.mem_append_right _ later)

/-- How far a search from a name has come. -/
structure Underway (group : ClassGroup) (start : String) (search : Search) : Prop where
  begun : search.Knows start
  ancestral : ∀ name ∈ search.pending, group.Reaches ancestorLinks start name
  own : ∀ name ∈ search.visited, ¬group.isLibrary name = true
  followed : ∀ name ∈ search.visited, ∀ other, group.Linked ancestorLinks name other →
    search.Knows other

/-- A search begins with the start pending and nothing visited. -/
theorem underway_start (group : ClassGroup) (start : String) :
    Underway group start ⟨[start], []⟩ where
  begun := .inr List.mem_cons_self
  ancestral name member := by
    rw [List.mem_singleton.mp member]
    exact .refl
  own := by simp
  followed := by simp

namespace Underway

/-- A name that was visited is passed over. -/
theorem pass (underway : Underway group start ⟨name :: rest, visited⟩) (known : name ∈ visited) :
    Underway group start ⟨rest, visited⟩ where
  begun := underway.begun.pass known
  ancestral other member := underway.ancestral other (List.mem_cons_of_mem _ member)
  own := underway.own
  followed other member above linked := (underway.followed other member above linked).pass known

/-- A new name is visited, and what it links to waits. -/
theorem visit (underway : Underway group start ⟨name :: rest, visited⟩)
    (inside : ¬group.isLibrary name = true) :
    Underway group start ⟨group.next pushed name ++ rest, name :: visited⟩ where
  begun := underway.begun.visit _
  ancestral other member := by
    rcases List.mem_append.mp member with linked | later
    · exact .tail (underway.ancestral name List.mem_cons_self) (mem_next_pushed.mp linked)
    · exact underway.ancestral other (List.mem_cons_of_mem _ later)
  own other member := by
    rcases List.mem_cons.mp member with rfl | before
    · exact inside
    · exact underway.own other before
  followed other member above linked := by
    rcases List.mem_cons.mp member with rfl | before
    · exact .inr (List.mem_append_left _ (mem_next_pushed.mpr linked))
    · exact (underway.followed other before above linked).visit _

/-- When nothing waits, all ancestors were visited. -/
theorem mem_visited (underway : Underway group start ⟨[], visited⟩)
    (reaches : group.Reaches ancestorLinks start name) : name ∈ visited := by
  induction reaches with
  | refl => simpa [Knows] using underway.begun
  | tail _ linked ih => simpa [Knows] using underway.followed _ ih _ linked

end Underway

/-- The pending names and the links of the classes that were not visited. -/
def cost (group : ClassGroup) (search : Search) : Nat :=
  search.pending.length + ((group.unmet search.visited).flatMap pushed).length

/-- The links of a class are paid for when it is visited. -/
theorem length_next_add_le (group : ClassGroup) (fresh : name ∉ visited) :
    (group.next pushed name).length + ((group.unmet (name :: visited)).flatMap pushed).length ≤
      ((group.unmet visited).flatMap pushed).length := by
  rw [unmet_cons]
  cases found : group.class? name with
  | none =>
    have fewer := (List.filter_sublist (p := fun decl : ClassDecl => decl.name ≠ name)
      (l := group.unmet visited)).flatMap pushed
    simpa [ClassGroup.next, found] using fewer.length_le
  | some decl =>
    have named := name_of_class? found
    have waiting : decl ∈ group.unmet visited :=
      List.mem_filter.mpr ⟨mem_of_class? found, by simpa [named] using fresh⟩
    obtain ⟨front, rear, split⟩ := List.append_of_mem waiting
    have before := ((List.filter_sublist (p := fun decl : ClassDecl => decl.name ≠ name)
      (l := front)).flatMap pushed).length_le
    have behind := ((List.filter_sublist (p := fun decl : ClassDecl => decl.name ≠ name)
      (l := rear)).flatMap pushed).length_le
    have added : group.next pushed name = pushed decl := by simp [ClassGroup.next, found]
    rw [split, added, List.filter_append, List.filter_cons_of_neg (by simp [named]),
      List.flatMap_append, List.flatMap_append, List.flatMap_cons]
    simp only [List.length_append]
    omega

/-- A round gives the right answer, or it goes on at less cost. -/
theorem Underway.step (underway : Underway group start search) :
    (∃ answer, search.step group = .inl answer ∧
        (answer = true ↔ ∃ last, group.Reaches ancestorLinks start last ∧
          group.isLibrary last = true)) ∨
      ∃ next, search.step group = .inr next ∧ Underway group start next ∧
        next.cost group < search.cost group := by
  obtain ⟨pending, visited⟩ := search
  cases pending with
  | nil =>
    refine .inl ⟨false, rfl, ?_⟩
    constructor
    · intro impossible
      cases impossible
    · rintro ⟨last, reaches, library⟩
      exact absurd library (underway.own last (underway.mem_visited reaches))
  | cons name rest =>
    by_cases known : name ∈ visited
    · refine .inr ⟨_, step_known known, underway.pass known, ?_⟩
      simp [cost]
    by_cases library : group.isLibrary name = true
    · refine .inl ⟨true, step_library known library, ?_⟩
      exact ⟨fun _ => ⟨name, underway.ancestral name List.mem_cons_self, library⟩, fun _ => rfl⟩
    · refine .inr ⟨_, step_fresh known library, underway.visit library, ?_⟩
      have paid := length_next_add_le group known
      simp only [cost, List.length_append, List.length_cons]
      omega

/-- A search ends with the right answer, after no more rounds than it has to pay for. -/
theorem Underway.exists_run (underway : Underway group start search) :
    ∃ rounds ≤ search.cost group + 1, ∃ answer, run group rounds search = some answer ∧
      (answer = true ↔ ∃ last, group.Reaches ancestorLinks start last ∧
        group.isLibrary last = true) := by
  induction bound : search.cost group using Nat.strong_induction_on generalizing search with
  | _ cost ih =>
    subst bound
    rcases underway.step with ⟨answer, ended, right⟩ | ⟨next, goes, onwards, less⟩
    · exact ⟨1, Nat.le_add_left _ _, answer, by simp [run, ended], right⟩
    · obtain ⟨rounds, within, answer, answered, right⟩ := ih _ less onwards rfl
      exact ⟨rounds + 1, by omega, answer, by simp [run, goes, answered], right⟩

/-- At first the cost is one for the start and one for each link of the group. -/
theorem cost_start (group : ClassGroup) (start : String) :
    cost group ⟨[start], []⟩ = (group.classes.flatMap ancestorLinks).length + 1 := by
  have all : group.unmet [] = group.classes := by simp [unmet]
  simp [cost, all, List.length_flatMap, pushed, ancestorLinks, Nat.add_comm]

end Search

/-- Library ancestry is reachability. A class has a library ancestor exactly if some chain of
superclasses and interfaces leads from it through classes of the group to a name that lies outside
the group and is not the root class. A search with an early end gives the same answer, after at
most two rounds more than there are links in the group, whatever its shape. -/
theorem hasLibraryAncestor_exact (group : ClassGroup) (name : String) :
    (group.hasLibraryAncestor name = true ↔
        ∃ chain last, List.IsChain group.Extended (name :: chain) ∧
          (name :: chain).getLast? = some last ∧
            group.class? last = none ∧ last ≠ StackType.objectName) ∧
      ∃ rounds ≤ (group.classes.flatMap ancestorLinks).length + 2,
        Search.run group rounds ⟨[name], []⟩ = some (group.hasLibraryAncestor name) := by
  constructor
  · rw [hasLibraryAncestor_iff_reaches]
    simp only [reaches_iff_chain, isLibrary_iff]
    constructor
    · rintro ⟨last, ⟨chain, linked, ends⟩, outside⟩
      exact ⟨chain, last, linked, ends, outside⟩
    · rintro ⟨chain, last, linked, ends, outside⟩
      exact ⟨last, ⟨chain, linked, ends⟩, outside⟩
  · obtain ⟨rounds, within, answer, answered, right⟩ :=
      (Search.underway_start group name).exists_run
    rw [Search.cost_start] at within
    have same : answer = group.hasLibraryAncestor name :=
      Bool.eq_iff_iff.mpr (right.trans hasLibraryAncestor_iff_reaches.symm)
    exact ⟨rounds, within, same ▸ answered⟩

end ClassTrim.ClassGroup
