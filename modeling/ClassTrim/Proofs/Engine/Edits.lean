import ClassTrim.Engine
import ClassTrim.Proofs.ClassGroup
import ClassTrim.Proofs.Usage.Fields

/-!
# The edits of a run

A run of the engine visits classes and methods, pass after pass and round after round. Of
all this, only four things change the group or the state: unused methods are removed, or
unused fields, or the dead stores of one method, or a method cannot be treated and a
warning says so. This module says once what such an edit does and shows that a run that
succeeds is made of edits, so every fact about runs is proved by looking at one edit. In
which order the classes are visited makes no difference to this.
-/

namespace ClassTrim

/-- Whether a method has a body without branches. -/
def MethodDecl.isStraight (method : MethodDecl) : Bool :=
  method.body.any (!·.hasBranches)

namespace Engine

variable {σ : Type} {settings : Settings} {group next last : ClassGroup}
  {state nextState lastState : RunState σ} {changed : Bool}

/-- The events of the dead stores of a method. -/
def storeEvents (settings : Settings) (method : MethodRef) (body : Body) (reports : List Report) :
    EventLog :=
  reports.flatMap (Pass.removalEvents method body) ++
    Pass.limitWarning method settings.maxRemovals reports.length

/-- One edit of a run, and whether it changed the group. -/
inductive Edit (settings : Settings) :
    ClassGroup → RunState σ → ClassGroup → RunState σ → Bool → Prop
  | methods {group : ClassGroup} {state : RunState σ}
      (chosen : settings.cleanup.unusedMethods = true)
      (found : (Usage.removeUnusedMethods group).1 ≠ []) :
      Edit settings group state (Usage.removeUnusedMethods group).2
        (state.record ((Usage.removeUnusedMethods group).1.map Pass.methodEvent)) true
  | fields {group : ClassGroup} {state : RunState σ}
      (found : (Usage.removeUnusedFields group).1 ≠ []) :
      Edit settings group state (Usage.removeUnusedFields group).2
        (state.record ((Usage.removeUnusedFields group).1.map
          (Pass.fieldEvent (Usage.usedFields group).length))) true
  | stores {site : Site} {method : MethodDecl} {state : RunState σ} {body : Body}
      {reports : List Report}
      (eliminated : DeadStore.eliminate site.owner method settings.maxRemovals =
        .ok (some (body, reports))) :
      Edit settings (site.hold [method]) state (site.hold [{ method with body := some body }])
        ((state.markModified (method.reference site.owner)).record
          (storeEvents settings (method.reference site.owner) body reports)) true
  | failure {site : Site} {method : MethodDecl} {state : RunState σ} {fault : Fault}
      (failed : DeadStore.eliminate site.owner method settings.maxRemovals = .error fault)
      (usual : fault.isFatal = false) (straight : method.isStraight = true)
      (asked : settings.deadStores = true) (tolerated : settings.continueOnError = true) :
      Edit settings (site.hold [method]) state (site.hold [method])
        ((state.record [Pipeline.failureWarning (Pass.deadStores : Pass σ)
          (method.reference site.owner) fault]).markFailed (method.reference site.owner)) false

/-- Any number of edits, and whether one of them changed the group. -/
inductive Edits (settings : Settings) :
    ClassGroup → RunState σ → ClassGroup → RunState σ → Bool → Prop
  | done (group : ClassGroup) (state : RunState σ) : Edits settings group state group state false
  | step {group middle last : ClassGroup} {state midState lastState : RunState σ}
      {first later : Bool} (edit : Edit settings group state middle midState first)
      (edits : Edits settings middle midState last lastState later) :
      Edits settings group state last lastState (first || later)

/-- Edits behind edits are edits. -/
theorem Edits.trans {middle : ClassGroup} {midState : RunState σ} {first later : Bool}
    (before : Edits settings group state middle midState first)
    (behind : Edits settings middle midState last lastState later) :
    Edits settings group state last lastState (first || later) := by
  induction before with
  | done => exact behind
  | step edit _ ih =>
    rw [Bool.or_assoc]
    exact .step edit (ih behind)

/-- What every edit keeps, any number of edits keep. -/
theorem Edits.keeps {motive : ClassGroup → RunState σ → Prop}
    (edits : Edits settings group state last lastState changed)
    (edited : ∀ {group next : ClassGroup} {state nextState : RunState σ} {changed : Bool},
      Edit settings group state next nextState changed → motive group state →
        motive next nextState)
    (initially : motive group state) : motive last lastState := by
  induction edits with
  | done => exact initially
  | step edit _ ih => exact ih (edited edit initially)

/-- A success that was mapped is the image of a success. -/
theorem exists_of_map_eq_ok {ε α β : Type} {change : α → β} {result : Except ε α} {answer : β}
    (mapped : result.map change = .ok answer) :
    ∃ before, result = .ok before ∧ change before = answer := by
  cases result with
  | error fault => cases mapped
  | ok before => exact ⟨before, rfl, Except.ok.inj mapped⟩

/-- What the elimination of dead stores does with one method. -/
theorem onMethod_deadStores_cases (settings : Settings) (owner : String) (method : MethodDecl)
    (state : RunState σ) :
    (∃ fault, DeadStore.eliminate owner method settings.maxRemovals = .error fault ∧
      Pass.deadStores.onMethod settings owner method state = (.error fault, state)) ∨
    (DeadStore.eliminate owner method settings.maxRemovals = .ok none ∧
      Pass.deadStores.onMethod settings owner method state = (.ok none, state)) ∨
    ∃ body reports,
      DeadStore.eliminate owner method settings.maxRemovals = .ok (some (body, reports)) ∧
      Pass.deadStores.onMethod settings owner method state =
        (.ok (some { method with body := some body }),
          (state.markModified (method.reference owner)).record
            (storeEvents settings (method.reference owner) body reports)) := by
  cases eliminated : DeadStore.eliminate owner method settings.maxRemovals with
  | error fault =>
    exact .inl ⟨fault, rfl, by simp [Pass.deadStores, Pass.eliminateStores, eliminated]⟩
  | ok change =>
    cases change with
    | none => exact .inr (.inl ⟨rfl, by simp [Pass.deadStores, Pass.eliminateStores, eliminated]⟩)
    | some result =>
      refine .inr (.inr ⟨result.1, result.2, rfl, ?_⟩)
      simp [Pass.deadStores, Pass.eliminateStores, eliminated, storeEvents]

/-- A visit of methods of one class is made of edits at their place. -/
theorem Edits.visitMethods (asked : settings.deadStores = true) (site : Site)
    {methods : List (MethodDecl × Bool)}
    (accepted : ∀ entry ∈ methods, entry.2 = true → entry.1.isStraight = true)
    (visited : (Pipeline.visitMethods settings Pass.deadStores site.owner methods
      state).verdict = .ok changed) :
    Edits settings (site.hold (methods.map Prod.fst)) state
      (site.hold
        (Pipeline.visitMethods settings Pass.deadStores site.owner methods state).subject)
      (Pipeline.visitMethods settings Pass.deadStores site.owner methods state).state changed := by
  induction methods generalizing site state changed with
  | nil =>
    cases visited
    exact .done _ _
  | cons entry rest ih =>
    obtain ⟨method, selected⟩ := entry
    have accepts := fun other member => accepted other (List.mem_cons_of_mem _ member)
    cases selected with
    | false =>
      simp only [Pipeline.visitMethods, List.map_cons, ← Site.hold_skip] at visited ⊢
      exact ih (site.skip method) accepts visited
    | true =>
      have here : ∀ first, site.hold (first :: rest.map Prod.fst) =
          (site.narrow (rest.map Prod.fst)).hold [first] :=
        fun first => (site.hold_narrow [first] _).symm
      rcases onMethod_deadStores_cases settings site.owner method state with
        ⟨fault, failed, outcome⟩ | ⟨idle, outcome⟩ | ⟨body, reports, eliminated, outcome⟩
      · have straight := accepted (method, true) List.mem_cons_self rfl
        simp only [Pipeline.visitMethods, outcome, List.map_cons] at visited ⊢
        split at visited
        · cases visited
        · next goesOn =>
          simp only [Bool.or_eq_true, Bool.not_eq_true', not_or, Bool.not_eq_true,
            Bool.not_eq_false] at goesOn
          rw [if_neg (by simp [goesOn])]
          have edits := ih (site.skip method) accepts visited
          have edit : Edit settings ((site.narrow (rest.map Prod.fst)).hold [method]) state _ _
            false := .failure failed goesOn.1 straight asked goesOn.2
          rw [Site.hold_skip, Site.hold_skip, here] at edits
          rw [here]
          exact .step edit edits
      · simp only [Pipeline.visitMethods, outcome, List.map_cons, Option.getD_none,
          ← Site.hold_skip] at visited ⊢
        obtain ⟨later, visitedLater, rfl⟩ := exists_of_map_eq_ok visited
        exact ih (site.skip method) accepts visitedLater
      · simp only [Pipeline.visitMethods, outcome, Option.getD_some, List.map_cons] at visited ⊢
        obtain ⟨later, visitedLater, rfl⟩ := exists_of_map_eq_ok visited
        have edits := ih (site.skip { method with body := some body }) accepts visitedLater
        have edit : Edit settings ((site.narrow (rest.map Prod.fst)).hold [method]) state _ _
          true := .stores eliminated
        rw [Site.hold_skip, Site.hold_skip, here] at edits
        rw [here]
        exact .step edit edits

/-- Only methods without branches are selected for a visit. -/
theorem isStraight_of_selected (decl : ClassDecl) (state : RunState σ) :
    ∀ entry ∈ decl.methods.map (fun method =>
      (method, !state.isFailed (method.reference decl.name) &&
        (Pass.deadStores : Pass σ).accepts decl method)),
      entry.2 = true → entry.1.isStraight = true := by
  intro entry member selected
  obtain ⟨method, _, rfl⟩ := List.mem_map.mp member
  exact (Bool.and_eq_true_iff.mp selected).2

/-- A visit of a class is made of edits inside it. -/
theorem Edits.visitClass (asked : settings.deadStores = true) (front rear : List ClassDecl)
    {decl : ClassDecl}
    (visited : (Pipeline.visitClass settings Pass.deadStores decl state).verdict = .ok changed) :
    Edits settings ⟨front ++ decl :: rear⟩ state
      ⟨front ++ (Pipeline.visitClass settings Pass.deadStores decl state).subject :: rear⟩
      (Pipeline.visitClass settings Pass.deadStores decl state).state changed := by
  have edits := Edits.visitMethods asked ⟨front, decl, [], [], rear⟩
    (isStraight_of_selected decl state) visited
  rw [Site.hold_whole, Site.hold_whole, List.map_map] at edits
  simp only [Function.comp_def, List.map_id'] at edits
  exact edits

/-- A class stands between those before it and those behind it, and another can take its
place. -/
theorem exists_split {classes : List ClassDecl} {position : Nat} {decl : ClassDecl}
    (found : classes[position]? = some decl) :
    ∃ front rear, classes = front ++ decl :: rear ∧
      ∀ visited, classes.set position visited = front ++ visited :: rear := by
  obtain ⟨bound, here⟩ := List.getElem?_eq_some_iff.mp found
  have replaced : ∀ visited, classes.set position visited =
      classes.take position ++ visited :: classes.drop (position + 1) := by
    intro visited
    rw [List.set_eq_take_append_cons_drop, if_pos bound]
  refine ⟨classes.take position, classes.drop (position + 1), ?_, replaced⟩
  rw [← replaced, ← here, List.set_getElem_self]

/-- A visit of classes is made of edits, in whatever order they are visited. -/
theorem Edits.visitClasses (asked : settings.deadStores = true) {positions : List Nat}
    {classes : List ClassDecl}
    (visited : (Pipeline.visitClasses settings Pass.deadStores positions classes state).verdict =
      .ok changed) :
    Edits settings ⟨classes⟩ state
      ⟨(Pipeline.visitClasses settings Pass.deadStores positions classes state).subject⟩
      (Pipeline.visitClasses settings Pass.deadStores positions classes state).state changed := by
  induction positions generalizing classes state changed with
  | nil =>
    cases visited
    exact .done _ _
  | cons position rest ih =>
    cases found : classes[position]? with
    | none =>
      simp only [Pipeline.visitClasses, found] at visited ⊢
      exact ih visited
    | some decl =>
      obtain ⟨front, rear, split, replaced⟩ := exists_split found
      simp only [Pipeline.visitClasses, found] at visited ⊢
      split at visited
      · cases visited
      · next first opened =>
        obtain ⟨later, visitedLater, rfl⟩ := exists_of_map_eq_ok visited
        have here := Edits.visitClass asked front rear opened
        rw [← split, ← replaced] at here
        exact here.trans (ih visitedLater)

/-- The passes of the library that settings may choose. -/
inductive Chosen (settings : Settings) : Pass σ → Prop
  | unusedMethods (asked : settings.cleanup.unusedMethods = true) :
      Chosen settings Pass.unusedMethods
  | unusedFields : Chosen settings Pass.unusedFields
  | deadStores (asked : settings.deadStores = true) : Chosen settings Pass.deadStores

/-- The passes of an engine are those that its settings choose. -/
theorem chosen_of_mem_passes {pass : Pass σ} (member : pass ∈ (ofSettings settings).passes) :
    Chosen settings pass := by
  simp only [ofSettings, List.mem_append] at member
  rcases member with (inMethods | inFields) | inStores
  · split at inMethods
    · next asked =>
      rw [List.mem_singleton.mp inMethods]
      exact .unusedMethods asked
    · cases inMethods
  · split at inFields
    · rw [List.mem_singleton.mp inFields]
      exact .unusedFields
    · cases inFields
  · split at inStores
    · next asked =>
      rw [List.mem_singleton.mp inStores]
      exact .deadStores asked
    · cases inStores

/-- The removal of unused methods takes them out at once, if there are any. -/
theorem runPass_unusedMethods (settings : Settings) (order : VisitOrder) (group : ClassGroup)
    (state : RunState σ) :
    Pipeline.runPass settings Pass.unusedMethods order group state =
      if (Usage.removeUnusedMethods group).1 = [] then ⟨group, state, .ok false⟩
      else ⟨(Usage.removeUnusedMethods group).2,
        state.record ((Usage.removeUnusedMethods group).1.map Pass.methodEvent), .ok true⟩ := by
  split
  · next nothing => simp [Pipeline.runPass, Pass.unusedMethods, nothing]
  · next found => simp [Pipeline.runPass, Pass.unusedMethods, found]

/-- The removal of unused fields takes them out at once, if there are any. -/
theorem runPass_unusedFields (settings : Settings) (order : VisitOrder) (group : ClassGroup)
    (state : RunState σ) :
    Pipeline.runPass settings Pass.unusedFields order group state =
      if (Usage.removeUnusedFields group).1 = [] then ⟨group, state, .ok false⟩
      else ⟨(Usage.removeUnusedFields group).2,
        state.record ((Usage.removeUnusedFields group).1.map
          (Pass.fieldEvent (Usage.usedFields group).length)), .ok true⟩ := by
  rw [Usage.removeUnusedFields]
  split
  · next nothing => simp [Pipeline.runPass, Pass.unusedFields, nothing]
  · next found => simp [Pipeline.runPass, Pass.unusedFields, found]

/-- A pass is made of edits. -/
theorem Edits.runPass {pass : Pass σ} (chosen : Chosen settings pass) {order : VisitOrder}
    (ran : (Pipeline.runPass settings pass order group state).verdict = .ok changed) :
    Edits settings group state (Pipeline.runPass settings pass order group state).subject
      (Pipeline.runPass settings pass order group state).state changed := by
  cases chosen with
  | unusedMethods asked =>
    rw [runPass_unusedMethods] at ran ⊢
    split at ran
    · next nothing =>
      cases ran
      rw [if_pos nothing]
      exact .done _ _
    · next found =>
      cases ran
      rw [if_neg found]
      exact .step (.methods asked found) (.done _ _)
  | unusedFields =>
    rw [runPass_unusedFields] at ran ⊢
    split at ran
    · next nothing =>
      cases ran
      rw [if_pos nothing]
      exact .done _ _
    · next found =>
      cases ran
      rw [if_neg found]
      exact .step (.fields found) (.done _ _)
  | deadStores asked => exact Edits.visitClasses asked ran

/-- Passes are made of edits. -/
theorem Edits.runPasses {passes : List (Pass σ)}
    (chosen : ∀ pass ∈ passes, Chosen settings pass) {orders : Nat → VisitOrder}
    (ran : (Pipeline.runPasses settings passes orders group state).verdict = .ok changed) :
    Edits settings group state (Pipeline.runPasses settings passes orders group state).subject
      (Pipeline.runPasses settings passes orders group state).state changed := by
  induction passes generalizing orders group state changed with
  | nil =>
    cases ran
    exact .done _ _
  | cons pass rest ih =>
    simp only [Pipeline.runPasses] at ran ⊢
    split at ran
    · cases ran
    · next first opened =>
      obtain ⟨later, ranLater, rfl⟩ := exists_of_map_eq_ok ran
      exact (Edits.runPass (chosen pass List.mem_cons_self) opened).trans
        (ih (fun other member => chosen other (List.mem_cons_of_mem _ member)) ranLater)

/-- The passes of the library do nothing before and after a round. -/
theorem runSteps_eq {passes : List (Pass σ)} (chosen : ∀ pass ∈ passes, Chosen settings pass)
    (state : RunState σ) :
    Pipeline.runSteps (passes.map Pass.before) state = (.ok (), state) ∧
      Pipeline.runSteps (passes.map Pass.after) state = (.ok (), state) := by
  induction passes with
  | nil => exact ⟨rfl, rfl⟩
  | cons pass rest ih =>
    obtain ⟨first, chosenLater⟩ := List.forall_mem_cons.mp chosen
    have idle : pass.before = .idle () ∧ pass.after = .idle () := by
      cases first <;> exact ⟨rfl, rfl⟩
    simp only [List.map_cons, Pipeline.runSteps, idle, RunStep.idle]
    exact ih chosenLater

/-- A round of the passes of the library is made of these passes and nothing else. -/
theorem runRound_eq {passes : List (Pass σ)} (chosen : ∀ pass ∈ passes, Chosen settings pass)
    (orders : Nat → VisitOrder) (group : ClassGroup) (state : RunState σ) :
    Pipeline.runRound settings passes orders group state =
      Pipeline.runPasses settings passes orders group state := by
  simp only [Pipeline.runRound, runSteps_eq chosen]
  split
  · next fault failed => rw [← failed]
  · next changed succeeded => rw [← succeeded]

/-- Rounds are made of edits. -/
theorem Edits.runRounds {passes : List (Pass σ)} (chosen : ∀ pass ∈ passes, Chosen settings pass)
    {schedule : Schedule} {finished rounds made : Nat}
    (ran : (Pipeline.runRounds settings passes schedule finished rounds group state).verdict =
      .ok made) :
    ∃ changed, Edits settings group state
      (Pipeline.runRounds settings passes schedule finished rounds group state).subject
      (Pipeline.runRounds settings passes schedule finished rounds group state).state changed := by
  induction rounds generalizing finished group state with
  | zero => exact ⟨false, .done _ _⟩
  | succ rounds ih =>
    simp only [Pipeline.runRounds, runRound_eq chosen] at ran ⊢
    split at ran
    · cases ran
    · next ended =>
      exact ⟨false, Edits.runPasses chosen ended⟩
    · next goesOn =>
      obtain ⟨later, edits⟩ := ih ran
      exact ⟨true || later, (Edits.runPasses chosen goesOn).trans edits⟩

end Engine

end ClassTrim
