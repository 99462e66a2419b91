import Mathlib.Logic.Relation
import Mathlib.Data.Finset.Card
import ClassTrim.Proofs.Hierarchy

/-!
# Walks and paths

A walk passes over every name that it has met, on whatever path. `preorder` shares nothing between
paths: it follows each of them, and ends one only where it comes back to a name on the path itself.
The walk nevertheless meets the names in the same order. When it passes over a name that is not on
its path, it has met everything behind that name as well, so that the paths through the name would
lead to nothing new.

It follows that a walk from a name meets exactly what the name reaches, and that a search along the
walk finds what a search along all paths finds first.
-/

namespace ClassTrim.ClassGroup

variable {group : ClassGroup} {links : ClassDecl → List String} {name other : String}
  {path names met : List String}

/-- What the class of a name links to; a name outside the group links to nothing. -/
def next (group : ClassGroup) (links : ClassDecl → List String) (name : String) : List String :=
  (group.class? name).toList.flatMap links

/-- Whether the class of a name is in the group and links to another name. -/
def Linked (group : ClassGroup) (links : ClassDecl → List String) (name other : String) : Prop :=
  ∃ decl, group.class? name = some decl ∧ other ∈ links decl

/-- Whether a chain of links leads from a name to another one. All names of the chain but the
last are those of classes of the group. -/
def Reaches (group : ClassGroup) (links : ClassDecl → List String) : String → String → Prop :=
  Relation.ReflTransGen (group.Linked links)

/-- What comes next are the names that are linked. -/
theorem mem_next : other ∈ group.next links name ↔ group.Linked links name other := by
  cases found : group.class? name <;> simp [next, Linked, found]

/-- The names along all paths from some names, depth first. A path ends outside the group, and
where it comes back to a name on itself. -/
def preorder (group : ClassGroup) (links : ClassDecl → List String) (path : List String) :
    List String → List String
  | [] => []
  | name :: rest =>
    if name ∈ path then preorder group links path rest
    else
      name :: (preorder group links (name :: path) (group.next links name) ++
        preorder group links path rest)
termination_by names => ((group.unmet path).length, names.length)
decreasing_by
  · exact Prod.Lex.right _ (Nat.lt_succ_self _)
  · next fresh =>
    cases found : group.class? name with
    | none =>
      have ended : group.next links name = [] := by simp [next, found]
      rw [ended]
      rcases Nat.lt_or_eq_of_le (unmet_length_le group name path) with less | same
      · exact Prod.Lex.left _ _ less
      · rw [same]
        exact Prod.Lex.right _ (Nat.succ_pos _)
    | some decl => exact Prod.Lex.left _ _ (unmet_length_lt found fresh)
  · exact Prod.Lex.right _ (Nat.lt_succ_self _)

/-- A name on the path is cut. -/
theorem preorder_known (known : name ∈ path) (rest : List String) :
    group.preorder links path (name :: rest) = group.preorder links path rest := by
  rw [preorder, if_pos known]

/-- Any other name comes before what lies behind it. -/
theorem preorder_fresh (fresh : name ∉ path) (rest : List String) :
    group.preorder links path (name :: rest) =
      name :: (group.preorder links (name :: path) (group.next links name) ++
        group.preorder links path rest) := by
  rw [preorder, if_neg fresh]

/-- Everything along the paths is reached. -/
theorem reaches_of_mem_preorder (member : other ∈ group.preorder links path names) :
    ∃ start ∈ names, group.Reaches links start other := by
  induction path, names using preorder.induct group links with
  | case1 path => simp [preorder] at member
  | case2 path name rest known ih =>
    rw [preorder_known known] at member
    obtain ⟨start, inside, reaches⟩ := ih member
    exact ⟨start, List.mem_cons_of_mem _ inside, reaches⟩
  | case3 path name rest fresh behind beside =>
    rw [preorder_fresh fresh, List.mem_cons, List.mem_append] at member
    rcases member with rfl | deeper | later
    · exact ⟨other, List.mem_cons_self, .refl⟩
    · obtain ⟨start, inside, reaches⟩ := behind deeper
      exact ⟨name, List.mem_cons_self, .head (mem_next.mp inside) reaches⟩
    · obtain ⟨start, inside, reaches⟩ := beside later
      exact ⟨start, List.mem_cons_of_mem _ inside, reaches⟩

/-- Meets some names, one after the other. The latest comes first. -/
def meet (met names : List String) : List String :=
  names.foldl (fun known name => known.insert name) met

/-- The first name is met before the others. -/
theorem meet_cons (met : List String) (name : String) (rest : List String) :
    meet met (name :: rest) = meet (met.insert name) rest :=
  rfl

/-- What has been met in the end was met before or is among the names. -/
theorem mem_meet : other ∈ meet met names ↔ other ∈ met ∨ other ∈ names := by
  induction names generalizing met with
  | nil => simp [meet]
  | cons name rest ih =>
    rw [meet_cons, ih, List.mem_insert_iff, List.mem_cons]
    tauto

/-- Meeting known names changes nothing. -/
theorem meet_of_subset (known : names ⊆ met) : meet met names = met := by
  induction names with
  | nil => rfl
  | cons name rest ih =>
    obtain ⟨here, later⟩ := List.cons_subset.mp known
    rw [meet_cons, List.insert_of_mem here, ih later]

/-- A search meets the same name first, whether or not names are repeated. -/
theorem find?_meet (hit : String → Bool) (met names : List String) :
    (meet met names).reverse.find? hit = (met.reverse ++ names).find? hit := by
  induction names generalizing met with
  | nil => simp [meet]
  | cons name rest ih =>
    rw [meet_cons, ih]
    by_cases known : name ∈ met
    · rw [List.insert_of_mem known, List.find?_append, List.find?_append]
      cases found : met.reverse.find? hit with
      | some first => rfl
      | none =>
        have missed : ¬hit name = true :=
          List.find?_eq_none.mp found name (List.mem_reverse.mpr known)
        rw [List.find?_cons_of_neg missed]
    · rw [List.insert_of_not_mem known, List.reverse_cons, List.append_assoc,
        List.singleton_append]

/-- What a walk has met while it is on a path: the path, and with every other name what that
links to. -/
structure Settled (group : ClassGroup) (links : ClassDecl → List String)
    (path met : List String) : Prop where
  along : path ⊆ met
  behind : ∀ name ∈ met, name ∉ path → group.next links name ⊆ met

namespace Settled

/-- The path goes on to a name that is known. -/
theorem enter_known (settled : group.Settled links path met) (known : name ∈ met) :
    group.Settled links (name :: path) met where
  along := List.cons_subset.mpr ⟨known, settled.along⟩
  behind other member apart :=
    settled.behind other member fun onPath => apart (List.mem_cons_of_mem _ onPath)

/-- The path goes on to a new name. -/
theorem enter (settled : group.Settled links path met) (name : String) :
    group.Settled links (name :: path) (name :: met) where
  along := List.cons_subset_cons _ settled.along
  behind other member apart := by
    rw [List.mem_cons, not_or] at apart
    have old : other ∈ met := (List.mem_cons.mp member).resolve_left apart.1
    exact fun _ linked => List.mem_cons_of_mem _ (settled.behind other old apart.2 linked)

/-- The path goes back once what the name links to is met. -/
theorem leave (settled : group.Settled links (name :: path) met)
    (done : group.next links name ⊆ met) : group.Settled links path met where
  along := (List.cons_subset.mp settled.along).2
  behind other member apart := by
    by_cases here : other = name
    · rw [here]
      exact done
    · exact settled.behind other member (by simp [here, apart])

/-- Behind known names there are only known names. -/
theorem preorder_subset (settled : group.Settled links path met) (known : names ⊆ met) :
    group.preorder links path names ⊆ met := by
  induction path, names using preorder.induct group links with
  | case1 path => simp [preorder]
  | case2 path name rest onPath ih =>
    rw [preorder_known onPath]
    exact ih settled (List.cons_subset.mp known).2
  | case3 path name rest fresh behind beside =>
    obtain ⟨here, later⟩ := List.cons_subset.mp known
    rw [preorder_fresh fresh]
    apply List.cons_subset.mpr ⟨here, List.append_subset.mpr ⟨?_, beside settled later⟩⟩
    exact behind (settled.enter_known here) (settled.behind name here fresh)

/-- A walk goes through some names as if it followed all their paths, and is as settled
afterwards as it was before. -/
theorem walk_append (settled : group.Settled links path met) (names pending : List String) :
    group.walk links (names ++ pending) met =
        group.walk links pending (meet met (group.preorder links path names)) ∧
      names ⊆ meet met (group.preorder links path names) ∧
      group.Settled links path (meet met (group.preorder links path names)) := by
  induction path, names using preorder.induct group links generalizing met pending with
  | case1 path => simpa [preorder, meet] using settled
  | case2 path name rest onPath ih =>
    obtain ⟨walked, covered, after⟩ := ih settled pending
    rw [preorder_known onPath, List.cons_append, walk_known (settled.along onPath)]
    exact ⟨walked, List.cons_subset.mpr ⟨after.along onPath, covered⟩, after⟩
  | case3 path name rest fresh behind beside =>
    have split : meet met (group.preorder links path (name :: rest)) =
        meet (meet (met.insert name) (group.preorder links (name :: path)
          (group.next links name))) (group.preorder links path rest) := by
      rw [preorder_fresh fresh]
      simp only [meet, List.foldl_cons, List.foldl_append]
    rw [split, List.cons_append]
    by_cases known : name ∈ met
    · -- The walk passes over the name, and the paths through it lead to nothing new.
      have stale := (settled.enter_known known).preorder_subset (settled.behind name known fresh)
      rw [List.insert_of_mem known, meet_of_subset stale, walk_known known]
      obtain ⟨walked, covered, after⟩ := beside settled pending
      exact ⟨walked, List.cons_subset.mpr ⟨mem_meet.mpr (.inl known), covered⟩, after⟩
    · rw [List.insert_of_not_mem known, walk_fresh known]
      obtain ⟨deeper, reached, inside⟩ := behind (settled.enter name) (rest ++ pending)
      obtain ⟨walked, covered, after⟩ := beside (inside.leave reached) pending
      have here : name ∈ meet (name :: met)
          (group.preorder links (name :: path) (group.next links name)) :=
        mem_meet.mpr (.inl List.mem_cons_self)
      exact ⟨deeper.trans walked,
        List.cons_subset.mpr ⟨mem_meet.mpr (.inl here), covered⟩, after⟩

end Settled

/-- A walk that has met nothing yet is settled. -/
theorem settled_nil (group : ClassGroup) (links : ClassDecl → List String) :
    group.Settled links [] [] :=
  ⟨List.nil_subset _, nofun⟩

/-- A walk meets the names along all paths, each of them once. -/
theorem walk_eq_meet (names : List String) :
    group.walk links names [] = (meet [] (group.preorder links [] names)).reverse := by
  obtain ⟨walked, _⟩ := (settled_nil group links).walk_append names []
  rw [List.append_nil] at walked
  rw [walked, walk]

/-- Sharing what was met between the paths does not change what is found first. -/
theorem find?_walk (hit : String → Bool) (names : List String) :
    (group.walk links names []).find? hit = (group.preorder links [] names).find? hit := by
  rw [walk_eq_meet, find?_meet, List.reverse_nil, List.nil_append]

/-- A walk meets exactly what its starts reach, cyclic hierarchies included. -/
theorem mem_walk : other ∈ group.walk links names [] ↔
    ∃ start ∈ names, group.Reaches links start other := by
  obtain ⟨_, covered, settled⟩ := (settled_nil group links).walk_append names []
  rw [walk_eq_meet, List.mem_reverse]
  constructor
  · intro member
    exact reaches_of_mem_preorder ((mem_meet.mp member).resolve_left nofun)
  · rintro ⟨start, inside, reaches⟩
    induction reaches with
    | refl => exact covered inside
    | tail _ linked ih => exact settled.behind _ ih nofun (mem_next.mpr linked)

/-- No chain of links leads from a name back to it. -/
def Acyclic (group : ClassGroup) (links : ClassDecl → List String) : Prop :=
  ∀ name, ¬Relation.TransGen (group.Linked links) name name

/-- Chains of links lead from every name on a path to all of some names. -/
def Ahead (group : ClassGroup) (links : ClassDecl → List String) (path names : List String) :
    Prop :=
  ∀ passed ∈ path, ∀ name ∈ names, Relation.TransGen (group.Linked links) passed name

namespace Ahead

variable {rest : List String}

/-- In an acyclic hierarchy no path comes back to a name on itself. -/
theorem fresh (ahead : group.Ahead links path (name :: rest)) (acyclic : group.Acyclic links) :
    name ∉ path :=
  fun onPath => acyclic name (ahead name onPath name List.mem_cons_self)

/-- What leads to all of some names leads to all but the first. -/
theorem beside (ahead : group.Ahead links path (name :: rest)) : group.Ahead links path rest :=
  fun passed onPath other member => ahead passed onPath other (List.mem_cons_of_mem _ member)

/-- The path goes on to a name, and what the name links to is ahead of it. -/
theorem behind (ahead : group.Ahead links path (name :: rest)) :
    group.Ahead links (name :: path) (group.next links name) := by
  intro passed onPath other member
  rcases List.mem_cons.mp onPath with rfl | earlier
  · exact .single (mem_next.mp member)
  · exact .tail (ahead passed earlier name List.mem_cons_self) (mem_next.mp member)

/-- Where nothing is cut, everything that is reached lies along the paths. -/
theorem mem_preorder (ahead : group.Ahead links path names) (acyclic : group.Acyclic links)
    {start : String} (member : start ∈ names) (reaches : group.Reaches links start other) :
    other ∈ group.preorder links path names := by
  induction path, names using preorder.induct group links generalizing start with
  | case1 path => cases member
  | case2 path name rest onPath ih => exact absurd onPath (ahead.fresh acyclic)
  | case3 path name rest fresh behind beside =>
    rw [preorder_fresh fresh, List.mem_cons, List.mem_append]
    rcases List.mem_cons.mp member with rfl | later
    · rcases reaches.cases_head with rfl | ⟨next, linked, onwards⟩
      · exact .inl rfl
      · exact .inr (.inl (behind ahead.behind (mem_next.mpr linked) onwards))
    · exact .inr (.inr (beside ahead.beside later reaches))

end Ahead

/-- Links that lead to lower ranks lead nowhere back. -/
theorem acyclic_of_rank (rank : String → Nat)
    (lower : ∀ decl ∈ group.classes, ∀ other ∈ links decl, rank other < rank decl.name) :
    group.Acyclic links := by
  have down : ∀ {first last}, Relation.TransGen (group.Linked links) first last →
      rank last < rank first := by
    intro first last chain
    induction chain with
    | single linked =>
      obtain ⟨decl, found, listed⟩ := linked
      rw [← name_of_class? found]
      exact lower decl (mem_of_class? found) _ listed
    | tail _ linked ih =>
      obtain ⟨decl, found, listed⟩ := linked
      have deeper := lower decl (mem_of_class? found) _ listed
      rw [name_of_class? found] at deeper
      exact deeper.trans ih
  exact fun name loop => Nat.lt_irrefl _ (down loop)

/-- A link of an acyclic hierarchy leads to a name that reaches less. -/
theorem Acyclic.card_walk_lt (acyclic : group.Acyclic links)
    (linked : group.Linked links name other) :
    (group.walk links [other] []).toFinset.card < (group.walk links [name] []).toFinset.card := by
  have mem_iff : ∀ {start last}, last ∈ (group.walk links [start] []).toFinset ↔
      group.Reaches links start last := by
    intro start last
    simp [mem_walk]
  have fewer : (group.walk links [other] []).toFinset ⊆ (group.walk links [name] []).toFinset :=
    fun last member => mem_iff.mpr (.head linked (mem_iff.mp member))
  apply Finset.card_lt_card
  apply (Finset.ssubset_iff_of_subset fewer).mpr
  refine ⟨name, mem_iff.mpr .refl, fun member => acyclic name ?_⟩
  exact Relation.TransGen.head' linked (mem_iff.mp member)

end ClassTrim.ClassGroup
