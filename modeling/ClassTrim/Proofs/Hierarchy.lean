import ClassTrim.Hierarchy

/-!
# Walks through an edited hierarchy

A walk reads the names and the links of classes and nothing else. A change to the members
of every class therefore leaves every walk as it was, and each class that a walk looks up
is the changed form of the one that it found before.

A search takes the first name of a walk at which a member is declared. Deleting members
can only take hits away, so the first hit stays the first as long as it stays a hit.
-/

namespace ClassTrim.ClassGroup

/-- The group with a change made to each of its classes. -/
def mapClasses (group : ClassGroup) (change : ClassDecl → ClassDecl) : ClassGroup :=
  ⟨group.classes.map change⟩

/-- A change that touches neither the name of a class nor its direct ancestors. -/
structure KeepsLinks (change : ClassDecl → ClassDecl) : Prop where
  name : ∀ decl, (change decl).name = decl.name
  superName : ∀ decl, (change decl).superName = decl.superName
  interfaces : ∀ decl, (change decl).interfaces = decl.interfaces

variable {group : ClassGroup} {change : ClassDecl → ClassDecl}

/-- The class of a name has that name. -/
theorem name_of_class? {name : String} {decl : ClassDecl}
    (found : group.class? name = some decl) : decl.name = name := by
  simpa using List.find?_some found

/-- A class that is found by its name belongs to the group. -/
theorem mem_of_class? {name : String} {decl : ClassDecl}
    (found : group.class? name = some decl) : decl ∈ group.classes :=
  List.mem_of_find?_eq_some found

/-- A change that keeps names is found in the place of the class. -/
theorem class?_mapClasses (keeps : KeepsLinks change) (name : String) :
    (group.mapClasses change).class? name = (group.class? name).map change := by
  simp only [class?, mapClasses, List.find?_map]
  congr 2
  funext decl
  simp only [Function.comp_apply, keeps.name]

/-- A name that was met is passed over. -/
theorem walk_known {links : ClassDecl → List String} {name : String} {met : List String}
    (known : name ∈ met) (rest : List String) :
    group.walk links (name :: rest) met = group.walk links rest met := by
  rw [walk, dif_pos known]

/-- A new name is met, and what its class links to comes next. -/
theorem walk_fresh {links : ClassDecl → List String} {name : String} {met : List String}
    (fresh : name ∉ met) (rest : List String) :
    group.walk links (name :: rest) met =
      group.walk links ((group.class? name).toList.flatMap links ++ rest) (name :: met) := by
  rw [walk, dif_neg fresh]
  split
  · next outside => simp [outside]
  · next decl inside => simp [inside]

/-- Following links that a change keeps leads through the same names. -/
theorem walk_mapClasses (keeps : KeepsLinks change) (links : ClassDecl → List String)
    (same : ∀ decl, links (change decl) = links decl) (pending met : List String) :
    (group.mapClasses change).walk links pending met = group.walk links pending met := by
  induction pending, met using walk.induct group links with
  | case1 met => simp only [walk]
  | case2 met name rest known ih => rw [walk_known known, walk_known known, ih]
  | case3 met name rest fresh outside ih =>
    have outsideAfter : (group.mapClasses change).class? name = none := by
      rw [class?_mapClasses keeps, outside, Option.map_none]
    rw [walk_fresh fresh, walk_fresh fresh, outside, outsideAfter]
    exact ih
  | case4 met name rest fresh decl inside _ ih =>
    have insideAfter : (group.mapClasses change).class? name = some (change decl) := by
      rw [class?_mapClasses keeps, inside, Option.map_some]
    rw [walk_fresh fresh, walk_fresh fresh, inside, insideAfter, Option.toList_some,
      Option.toList_some, List.flatMap_singleton, List.flatMap_singleton, same]
    exact ih

/-- A change that keeps links keeps the direct ancestors. -/
theorem ancestorLinks_change (keeps : KeepsLinks change) (decl : ClassDecl) :
    ancestorLinks (change decl) = ancestorLinks decl := by
  simp only [ancestorLinks, keeps.superName, keeps.interfaces]

/-- The superclasses of a class are the changed forms of those that it had. -/
theorem superclassChain_mapClasses (keeps : KeepsLinks change) (name : String) :
    (group.mapClasses change).superclassChain name = (group.superclassChain name).map change := by
  have sameLinks : ∀ decl, (change decl).superName.toList = decl.superName.toList :=
    fun decl => by rw [keeps.superName]
  rw [superclassChain, superclassChain,
    walk_mapClasses keeps (·.superName.toList) sameLinks, List.map_filterMap]
  congr 1
  funext other
  exact class?_mapClasses keeps other

/-- What a chain of superclasses holds is in the group, under its own name. -/
theorem class?_of_mem_superclassChain {name : String} {decl : ClassDecl}
    (member : decl ∈ group.superclassChain name) : group.class? decl.name = some decl := by
  obtain ⟨other, _, found⟩ := List.mem_filterMap.mp member
  rw [name_of_class? found]
  exact found

/-- The first hit of a search stays the first when other hits are taken away. -/
theorem find?_eq_of_fewer {α : Type} {hit fewer : α → Bool} {places : List α}
    (less : ∀ place ∈ places, fewer place = true → hit place = true)
    (stays : ∀ place, places.find? hit = some place → fewer place = true) :
    places.find? fewer = places.find? hit := by
  induction places with
  | nil => rfl
  | cons place rest ih =>
    cases here : hit place with
    | true =>
      have stillHere : fewer place = true := stays place (by simp [here])
      rw [List.find?_cons_of_pos here, List.find?_cons_of_pos stillHere]
    | false =>
      have notHere : ¬fewer place = true := by
        intro found
        have impossible := less place List.mem_cons_self found
        rw [here] at impossible
        cases impossible
      have missed : ¬hit place = true := by simp [here]
      rw [List.find?_cons_of_neg missed] at stays
      rw [List.find?_cons_of_neg missed, List.find?_cons_of_neg notHere]
      exact ih (fun other member => less other (List.mem_cons_of_mem _ member)) stays

end ClassTrim.ClassGroup
