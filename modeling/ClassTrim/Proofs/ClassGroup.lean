import ClassTrim.ClassGroup

/-!
# Methods and their places

Everything that a group holds in its methods is read off one list, `declared`: the
declared methods with the names of their classes. A site is the place of some methods of
one class, with all that stands around it, so a group seen from a site is an edit of that
list in the middle.

Removing a method empties the place of the first method of its name and descriptor in the
first class of its name, and touches nothing around it.
-/

namespace ClassTrim

/-- The operations of a method, none if it has no body. -/
def MethodDecl.ops (method : MethodDecl) : List Op :=
  method.body.toList.flatMap fun body => body.instructions.map Instruction.op

namespace ClassGroup

/-- The declared methods, each with the name of its class, in order. -/
def declared (group : ClassGroup) : List (String × MethodDecl) :=
  group.classes.flatMap fun decl => decl.methods.map (decl.name, ·)

/-- The number of methods is the length of the list of declared ones. -/
theorem methodCount_eq (group : ClassGroup) : group.methodCount = group.declared.length := by
  simp [methodCount, methods, declared, List.length_flatMap]

/-- The operations of a group are those of its declared methods, in order. -/
theorem ops_eq (group : ClassGroup) :
    group.ops = group.declared.flatMap fun entry => entry.2.ops := by
  simp only [ops, declared, List.flatMap_assoc, List.flatMap_map]
  congr 1
  funext decl
  rw [ClassDecl.bodies]
  induction decl.methods with
  | nil => rfl
  | cons method rest ih =>
    cases given : method.body with
    | none =>
      rw [List.filterMap_cons_none given, List.flatMap_cons, ih]
      simp [MethodDecl.ops, given]
    | some body =>
      rw [List.filterMap_cons_some given, List.flatMap_cons, List.flatMap_cons, ih]
      simp [MethodDecl.ops, given]

/-- A method is declared under a name if some class of this name has it. -/
theorem mem_declared {group : ClassGroup} {owner : String} {method : MethodDecl} :
    (owner, method) ∈ group.declared ↔
      ∃ decl ∈ group.classes, decl.name = owner ∧ method ∈ decl.methods := by
  simp only [declared, List.mem_flatMap, List.mem_map, Prod.mk.injEq]
  constructor
  · rintro ⟨decl, member, inside, declares, same, rfl⟩
    exact ⟨decl, member, same, declares⟩
  · rintro ⟨decl, member, same, declares⟩
    exact ⟨decl, member, method, declares, same, rfl⟩

end ClassGroup

/-- The place of some methods of one class, and all that stands around it. -/
structure Site where
  front : List ClassDecl
  decl : ClassDecl
  before : List MethodDecl
  behind : List MethodDecl
  rear : List ClassDecl

namespace Site

/-- The name of the class. -/
def owner (site : Site) : String :=
  site.decl.name

/-- The class with methods at the site. -/
def holder (site : Site) (methods : List MethodDecl) : ClassDecl :=
  { site.decl with methods := site.before ++ methods ++ site.behind }

/-- The group with methods at the site. -/
def hold (site : Site) (methods : List MethodDecl) : ClassGroup :=
  ⟨site.front ++ site.holder methods :: site.rear⟩

/-- The methods declared ahead of the site. -/
def earlier (site : Site) : List (String × MethodDecl) :=
  (ClassGroup.mk site.front).declared ++ site.before.map (site.owner, ·)

/-- The methods declared behind the site. -/
def later (site : Site) : List (String × MethodDecl) :=
  site.behind.map (site.owner, ·) ++ (ClassGroup.mk site.rear).declared

/-- The place behind the first of the methods that stand at the site. -/
def skip (site : Site) (method : MethodDecl) : Site :=
  { site with before := site.before ++ [method] }

/-- The place ahead of the last of the methods that stand at the site. -/
def narrow (site : Site) (rest : List MethodDecl) : Site :=
  { site with behind := rest ++ site.behind }

/-- To skip a method is to hold it in front of the others. -/
theorem hold_skip (site : Site) (method : MethodDecl) (rest : List MethodDecl) :
    (site.skip method).hold rest = site.hold (method :: rest) := by
  simp [hold, holder, skip]

/-- To narrow a site is to hold the rest behind what is seen. -/
theorem hold_narrow (site : Site) (methods rest : List MethodDecl) :
    (site.narrow rest).hold methods = site.hold (methods ++ rest) := by
  simp [hold, holder, narrow]

/-- The place of all methods of a class. -/
theorem hold_whole (front rear : List ClassDecl) (decl : ClassDecl) (methods : List MethodDecl) :
    (Site.mk front decl [] [] rear).hold methods = ⟨front ++ { decl with methods } :: rear⟩ := by
  simp [hold, holder]

/-- The declared methods of a held group are what comes earlier, what is held, and what comes later.
-/
theorem declared_hold (site : Site) (methods : List MethodDecl) :
    (site.hold methods).declared =
      site.earlier ++ (methods.map (site.owner, ·) ++ site.later) := by
  simp [hold, holder, earlier, later, owner, ClassGroup.declared]

/-- With one method held, everything declared is that method or stands around it. -/
theorem mem_declared_hold {site : Site} {method : MethodDecl} {entry : String × MethodDecl} :
    entry ∈ (site.hold [method]).declared ↔
      entry = (site.owner, method) ∨ entry ∈ site.earlier ++ site.later := by
  rw [declared_hold, List.map_singleton, List.mem_append, List.mem_append, List.mem_singleton,
    List.mem_append, or_left_comm]

/-- The methods of a held group are those held and those around them. -/
theorem methodCount_hold (site : Site) (methods : List MethodDecl) :
    (site.hold methods).methodCount =
      site.earlier.length + methods.length + site.later.length := by
  rw [ClassGroup.methodCount_eq, declared_hold]
  simp [Nat.add_assoc]

/-- The operations of a held group come from what is earlier, from what is held, and from what is
later. -/
theorem ops_hold (site : Site) (methods : List MethodDecl) :
    (site.hold methods).ops = site.earlier.flatMap (fun entry => entry.2.ops) ++
      (methods.flatMap MethodDecl.ops ++ site.later.flatMap fun entry => entry.2.ops) := by
  rw [ClassGroup.ops_eq, declared_hold]
  simp [List.flatMap_map]

/-- Changing one method changes the number of instructions by as much as its own. -/
theorem instructionCount_hold (site : Site) (old new : MethodDecl) :
    (site.hold [new]).instructionCount + old.ops.length =
      (site.hold [old]).instructionCount + new.ops.length := by
  simp only [ClassGroup.instructionCount, ops_hold, List.length_append, List.flatMap_singleton]
  omega

/-- Fields do not depend on what methods stand at a site. -/
theorem fieldCount_hold (site : Site) (methods others : List MethodDecl) :
    (site.hold methods).fieldCount = (site.hold others).fieldCount := by
  simp [hold, holder, ClassGroup.fieldCount]

end Site

namespace ClassGroup

variable {group changed : ClassGroup} {owner name descriptor : String} {method : MethodDecl}

/-- The first class that passes the test is changed, and those around it are not. -/
theorem updateFirst_append {test : ClassDecl → Bool} {change : ClassDecl → ClassDecl}
    {front rear : List ClassDecl} {decl : ClassDecl}
    (missed : ∀ other ∈ front, test other = false) (met : test decl = true) :
    updateFirst test change (front ++ decl :: rear) = front ++ change decl :: rear := by
  induction front with
  | nil => simp only [List.nil_append, updateFirst, met, if_true]
  | cons other rest ih =>
    have apart := missed other List.mem_cons_self
    rw [List.cons_append, updateFirst, apart, if_neg Bool.false_ne_true,
      ih fun next member => missed next (List.mem_cons_of_mem _ member), List.cons_append]

/-- A removal that finds its method leaves the place of the method empty. -/
theorem exists_site_of_removeMethod
    (removed : group.removeMethod owner name descriptor = .ok (some method, changed)) :
    ∃ site : Site, site.owner = owner ∧ method.isNamed name descriptor = true ∧
      group = site.hold [method] ∧ changed = site.hold [] := by
  cases found : group.class? owner with
  | none => simp [removeMethod, found] at removed
  | some decl =>
    simp only [removeMethod, found, Except.ok.injEq, Prod.mk.injEq] at removed
    obtain ⟨declares, rfl⟩ := removed
    obtain ⟨named, front, rear, classes, missed⟩ := List.find?_eq_some_iff_append.mp found
    obtain ⟨meant, before, behind, methods, skipped⟩ := List.find?_eq_some_iff_append.mp declares
    refine ⟨⟨front, decl, before, behind, rear⟩, of_decide_eq_true named, meant, ?_, ?_⟩
    · have same : { decl with methods := before ++ [method] ++ behind } = decl := by
        rw [List.append_assoc, List.singleton_append, ← methods]
      simp only [Site.hold, Site.holder, same, ← classes]
    · have erased : decl.methods.eraseP (·.isNamed name descriptor) = before ++ [] ++ behind := by
        rw [methods, List.eraseP_append_right _ (by simpa using skipped), List.eraseP_cons, meant,
          cond_true, List.append_nil]
      have apart : ∀ other ∈ front, decide (other.name = owner) = false := by
        simpa using missed
      simp only [update, Site.hold, Site.holder, classes, updateFirst_append apart named,
        ClassDecl.eraseMethod, erased]

end ClassGroup

end ClassTrim
