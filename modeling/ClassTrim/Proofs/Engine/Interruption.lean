import ClassTrim.Proofs.Engine.Sweep

/-!
# Which runs come to their end

A fault of a method ends a run unless failures are tolerated, and the removal of members has no
faults. So where failures are tolerated one thing is left that ends a run: a sweep visits a method
without branches for which there is no frame, and the work breaks off. The parameters of such a
method need more slots than a word can count.

No edit takes the frame from a method that has one. So a run is interrupted in its first round or
not at all, and the first round tells by the methods that its removal of methods leaves: if one of
them has no branches and no frame, no order of visits lets the sweep come to its end, and if there
is none, every order does.
-/

namespace ClassTrim

namespace DeadStore

variable {owner : String} {method : MethodDecl} {limit : Nat}

/-- Where one removal is allowed, a method without a frame breaks off the work. -/
theorem eliminate_of_breaks (breaks : method.Breaks owner) (positive : 0 < limit) :
    ∃ fault, eliminate owner method limit = .error fault ∧ fault.isCrash = true := by
  obtain ⟨straight, fault, unframed⟩ := breaks
  obtain ⟨body, given, plain⟩ := exists_body_of_isStraight straight
  refine ⟨fault, (eliminate_eq_error_iff given plain fault).mpr ⟨positive, ?_⟩, ?_⟩
  · rw [Simulation.runMethod, unframed]
  · obtain ⟨place, _, rfl⟩ := Frame.outOfRange_of_forMethod unframed
    rfl

end DeadStore

namespace Engine

variable {σ : Type} {settings : Settings} {group next last : ClassGroup}
  {state nextState lastState : RunState σ} {changed : Bool} {owner : String} {fault : Fault}

/-- References do not depend on bodies. -/
theorem references_hold_body (site : Site) (method : MethodDecl) (body : Option Body) :
    (site.hold [{ method with body }]).references = (site.hold [method]).references := by
  simp [ClassGroup.references, Site.declared_hold, MethodDecl.reference]

/-- An edit declares no reference twice. -/
theorem Edit.distinct (edit : Edit settings group state next nextState changed)
    (distinct : group.references.Nodup) : next.references.Nodup := by
  cases edit with
  | methods =>
    exact distinct.sublist ((Usage.removeUnusedMethods_accounts group).1.map _)
  | fields =>
    rwa [ClassGroup.references, (Usage.removeUnusedFields_accounts group).1]
  | stores => rwa [references_hold_body]
  | failure => exact distinct

/-- Edits declare no reference twice. -/
theorem Edits.distinct (edits : Edits settings group state last lastState changed)
    (distinct : group.references.Nodup) : last.references.Nodup :=
  edits.keeps (motive := fun group _ => group.references.Nodup) Edit.distinct distinct

/-- What the removal of methods does to methods and failures. -/
theorem runPass_unusedMethods_accounts (settings : Settings) (order : VisitOrder)
    (group : ClassGroup) (state : RunState σ) :
    (∃ changed, (Pipeline.runPass settings Pass.unusedMethods order group state).verdict =
        .ok changed) ∧
      (Pipeline.runPass settings Pass.unusedMethods order group state).subject.declared =
        (Usage.removeUnusedMethods group).2.declared ∧
      (Pipeline.runPass settings Pass.unusedMethods order group state).state.failed =
        state.failed := by
  rw [runPass_unusedMethods]
  split
  · next nothing =>
    obtain ⟨fewer, counted, _⟩ := Usage.removeUnusedMethods_accounts group
    rw [nothing, ClassGroup.methodCount_eq, ClassGroup.methodCount_eq] at counted
    exact ⟨⟨_, rfl⟩, (fewer.eq_of_length counted).symm, rfl⟩
  · exact ⟨⟨_, rfl⟩, rfl, rfl⟩

/-- What the removal of fields does to methods and failures. -/
theorem runPass_unusedFields_accounts (settings : Settings) (order : VisitOrder)
    (group : ClassGroup) (state : RunState σ) :
    (∃ changed, (Pipeline.runPass settings Pass.unusedFields order group state).verdict =
        .ok changed) ∧
      (Pipeline.runPass settings Pass.unusedFields order group state).subject.declared =
        group.declared ∧
      (Pipeline.runPass settings Pass.unusedFields order group state).state.failed =
        state.failed := by
  rw [runPass_unusedFields]
  split
  · exact ⟨⟨_, rfl⟩, rfl, rfl⟩
  · exact ⟨⟨_, rfl⟩, (Usage.removeUnusedFields_accounts group).1, rfl⟩

/-- What the first removal of methods leaves. -/
def survivors (settings : Settings) (group : ClassGroup) : ClassGroup :=
  if settings.cleanup.unusedMethods then (Usage.removeUnusedMethods group).2 else group

/-- The survivors are methods of the group. -/
theorem survivors_sublist (settings : Settings) (group : ClassGroup) :
    (survivors settings group).declared.Sublist group.declared := by
  unfold survivors
  split
  · exact (Usage.removeUnusedMethods_accounts group).1
  · exact .refl _

/-- No method of the group breaks off the work, if a sweep may remove anything. -/
def Sturdy (settings : Settings) (group : ClassGroup) : Prop :=
  settings.deadStores = true → 0 < settings.maxRemovals →
    ∀ owner method, (owner, method) ∈ group.declared → ¬method.Breaks owner

/-- Fewer methods are no harm. -/
theorem Sturdy.mono (sturdy : Sturdy settings group) (fewer : next.declared ⊆ group.declared) :
    Sturdy settings next :=
  fun asked positive owner method member => sturdy asked positive owner method (fewer member)

/-- No edit takes the frame from a method. -/
theorem Sturdy.edit (sturdy : Sturdy settings group)
    (edit : Edit settings group state next nextState changed) : Sturdy settings next := by
  cases edit with
  | methods => exact sturdy.mono (Usage.removeUnusedMethods_accounts group).1.subset
  | fields =>
    exact sturdy.mono fun _ member => (Usage.removeUnusedFields_accounts group).1 ▸ member
  | stores eliminated =>
    intro asked positive owner method member
    rcases Site.mem_declared_hold.mp member with here | elsewhere
    · cases here
      exact DeadStore.not_breaks_of_eliminate eliminated
    · exact sturdy asked positive owner method (Site.mem_declared_hold.mpr (.inr elsewhere))
  | failure => exact sturdy

/-- Edits take the frame from no method. -/
theorem Sturdy.edits (sturdy : Sturdy settings group)
    (edits : Edits settings group state last lastState changed) : Sturdy settings last :=
  edits.keeps (motive := fun group _ => Sturdy settings group)
    (fun edit sturdy => sturdy.edit edit) sturdy

/-- Where failures are tolerated, the classes of a sturdy group are calm, whoever is listed. -/
theorem Sturdy.calm (sturdy : Sturdy settings group) (tolerated : settings.continueOnError = true)
    (asked : settings.deadStores = true) (failed : List MethodRef) :
    ∀ decl ∈ group.classes, Calm settings failed decl := by
  intro decl member method inside _ straight fault refused
  rcases DeadStore.fails_or_breaks_of_eliminate straight refused with ⟨_, usual⟩ | ⟨breaks, _⟩
  · exact ⟨usual, tolerated⟩
  · rcases Nat.eq_zero_or_pos settings.maxRemovals with none | positive
    · rw [none, DeadStore.eliminate_zero straight] at refused
      cases refused
    · have declared := ClassGroup.mem_declared.mpr ⟨decl, member, rfl, inside⟩
      exact absurd breaks (sturdy asked positive decl.name method declared)

/-- Where failures are tolerated, every pass over a sturdy group comes to its end. -/
theorem exists_runPass (tolerated : settings.continueOnError = true) {pass : Pass σ}
    (chosen : Chosen settings pass) (distinct : group.references.Nodup)
    (sturdy : Sturdy settings group) (order : VisitOrder) (state : RunState σ) :
    ∃ changed, (Pipeline.runPass settings pass order group state).verdict = .ok changed := by
  cases chosen with
  | unusedMethods => exact (runPass_unusedMethods_accounts settings order group state).1
  | unusedFields => exact (runPass_unusedFields_accounts settings order group state).1
  | deadStores asked =>
    obtain ⟨_, outcome, _⟩ := runPass_deadStores_eq (apart_of_references distinct)
      (sturdy.calm tolerated asked state.failed) order
    rw [outcome]
    exact ⟨_, rfl⟩

/-- So do passes one after the other, and they leave a sturdy group. -/
theorem exists_runPasses (tolerated : settings.continueOnError = true) {passes : List (Pass σ)}
    (chosen : ∀ pass ∈ passes, Chosen settings pass) (distinct : group.references.Nodup)
    (sturdy : Sturdy settings group) (orders : Nat → VisitOrder) (state : RunState σ) :
    ∃ changed, (Pipeline.runPasses settings passes orders group state).verdict = .ok changed ∧
      Sturdy settings (Pipeline.runPasses settings passes orders group state).subject := by
  induction passes generalizing orders group state with
  | nil => exact ⟨false, rfl, sturdy⟩
  | cons pass rest ih =>
    obtain ⟨first, chosenLater⟩ := List.forall_mem_cons.mp chosen
    obtain ⟨here, opened⟩ := exists_runPass tolerated first distinct sturdy (orders 0) state
    have edits := Edits.runPass first opened
    obtain ⟨later, ranLater, sturdyLater⟩ := ih chosenLater (edits.distinct distinct)
      (sturdy.edits edits) (fun later => orders (later + 1))
      (Pipeline.runPass settings pass (orders 0) group state).state
    simp only [Pipeline.runPasses, opened, ranLater]
    exact ⟨_, rfl, sturdyLater⟩

/-- A round comes to its end if the survivors are sturdy, since the removal of methods is the
first of its passes. -/
theorem exists_round (tolerated : settings.continueOnError = true)
    (distinct : group.references.Nodup) (sturdy : Sturdy settings (survivors settings group))
    (orders : Nat → VisitOrder) (state : RunState σ) :
    ∃ changed, (Pipeline.runPasses settings (ofSettings settings).passes orders group
        state).verdict = .ok changed ∧
      Sturdy settings (Pipeline.runPasses settings (ofSettings settings).passes orders group
        state).subject := by
  have chosen : ∀ pass ∈ (ofSettings settings : Engine σ).passes, Chosen settings pass :=
    fun _ => chosen_of_mem_passes
  cases removes : settings.cleanup.unusedMethods with
  | false =>
    have same : survivors settings group = group := by simp [survivors, removes]
    exact exists_runPasses tolerated chosen distinct (same ▸ sturdy) orders state
  | true =>
    obtain ⟨rest, passes⟩ : ∃ rest, (ofSettings settings : Engine σ).passes =
        Pass.unusedMethods :: rest := by
      simp [ofSettings, removes]
    rw [passes] at chosen ⊢
    obtain ⟨first, chosenLater⟩ := List.forall_mem_cons.mp chosen
    obtain ⟨⟨here, opened⟩, left, _⟩ :=
      runPass_unusedMethods_accounts settings (orders 0) group state
    have same : (survivors settings group).declared =
        (Pipeline.runPass settings Pass.unusedMethods (orders 0) group state).subject.declared := by
      rw [survivors, if_pos removes, left]
    have sturdyLeft : Sturdy settings
        (Pipeline.runPass settings Pass.unusedMethods (orders 0) group state).subject :=
      sturdy.mono fun _ member => same ▸ member
    obtain ⟨later, ranLater, sturdyLater⟩ := exists_runPasses tolerated chosenLater
      ((Edits.runPass first opened).distinct distinct) sturdyLeft
      (fun later => orders (later + 1))
      (Pipeline.runPass settings Pass.unusedMethods (orders 0) group state).state
    simp only [Pipeline.runPasses, opened, ranLater]
    exact ⟨_, rfl, sturdyLater⟩

/-- Rounds come to their end if the first survivors are sturdy. -/
theorem exists_runRounds (tolerated : settings.continueOnError = true)
    (distinct : group.references.Nodup) (sturdy : Sturdy settings (survivors settings group))
    (schedule : Schedule) (finished rounds : Nat) (state : RunState σ) :
    ∃ made, (Pipeline.runRounds settings (ofSettings settings).passes schedule finished rounds
      group state).verdict = .ok made := by
  have chosen : ∀ pass ∈ (ofSettings settings : Engine σ).passes, Chosen settings pass :=
    fun _ => chosen_of_mem_passes
  induction rounds generalizing finished group state with
  | zero => exact ⟨finished, rfl⟩
  | succ rounds ih =>
    obtain ⟨changed, ran, sturdyNext⟩ :=
      exists_round tolerated distinct sturdy (schedule finished) state
    simp only [Pipeline.runRounds, runRound_eq chosen, ran]
    cases changed with
    | false => exact ⟨_, rfl⟩
    | true =>
      exact ih ((Edits.runPasses chosen ran).distinct distinct)
        (sturdyNext.mono (survivors_sublist settings _).subset) _ _

/-- A failure that was mapped is that failure. -/
theorem error_of_map_eq_error {α β : Type} {change : α → β} {result : Except Fault α}
    (mapped : result.map change = .error fault) : result = .error fault := by
  cases result with
  | error met =>
    cases mapped
    rfl
  | ok answer => cases mapped

/-- Where failures are tolerated, only work that broke off ends a visit of methods. -/
theorem isCrash_of_visitMethods (tolerated : settings.continueOnError = true)
    {entries : List (MethodDecl × Bool)}
    (straight : ∀ entry ∈ entries, entry.2 = true → entry.1.isStraight = true)
    (ended : (Pipeline.visitMethods settings Pass.deadStores owner entries state).verdict =
      .error fault) : fault.isCrash = true := by
  induction entries generalizing state with
  | nil => cases ended
  | cons entry rest ih =>
    obtain ⟨method, selected⟩ := entry
    obtain ⟨straightHere, straightLater⟩ := List.forall_mem_cons.mp straight
    cases selected with
    | false => exact ih straightLater ended
    | true =>
      rcases onMethod_deadStores_cases settings owner method state with
        ⟨met, refused, outcome⟩ | ⟨_, outcome⟩ | ⟨_, _, _, outcome⟩
      · simp only [Pipeline.visitMethods, outcome, tolerated, Bool.not_true, Bool.or_false]
          at ended
        split at ended
        · next fatal =>
          cases ended
          rcases DeadStore.fails_or_breaks_of_eliminate (straightHere rfl) refused with
            ⟨_, usual⟩ | ⟨_, crash⟩
          · rw [usual] at fatal
            cases fatal
          · exact crash
        · exact ih straightLater ended
      · simp only [Pipeline.visitMethods, outcome] at ended
        exact ih straightLater (error_of_map_eq_error ended)
      · simp only [Pipeline.visitMethods, outcome] at ended
        exact ih straightLater (error_of_map_eq_error ended)

/-- The same for classes. -/
theorem isCrash_of_visitClasses (tolerated : settings.continueOnError = true)
    {positions : List Nat} {classes : List ClassDecl}
    (ended : (Pipeline.visitClasses settings Pass.deadStores positions classes state).verdict =
      .error fault) : fault.isCrash = true := by
  induction positions generalizing classes state with
  | nil => cases ended
  | cons position rest ih =>
    simp only [Pipeline.visitClasses] at ended
    split at ended
    · exact ih ended
    · next decl _ =>
      split at ended
      · next met visited =>
        cases ended
        exact isCrash_of_visitMethods tolerated (isStraight_of_selected decl state) visited
      · exact ih (error_of_map_eq_error ended)

/-- The same for a pass. -/
theorem isCrash_of_runPass (tolerated : settings.continueOnError = true) {pass : Pass σ}
    (chosen : Chosen settings pass) {order : VisitOrder}
    (ended : (Pipeline.runPass settings pass order group state).verdict = .error fault) :
    fault.isCrash = true := by
  cases chosen with
  | unusedMethods =>
    obtain ⟨_, ran⟩ := (runPass_unusedMethods_accounts settings order group state).1
    cases ran.symm.trans ended
  | unusedFields =>
    obtain ⟨_, ran⟩ := (runPass_unusedFields_accounts settings order group state).1
    cases ran.symm.trans ended
  | deadStores => exact isCrash_of_visitClasses tolerated ended

/-- The same for passes one after the other. -/
theorem isCrash_of_runPasses (tolerated : settings.continueOnError = true)
    {passes : List (Pass σ)} (chosen : ∀ pass ∈ passes, Chosen settings pass)
    {orders : Nat → VisitOrder}
    (ended : (Pipeline.runPasses settings passes orders group state).verdict = .error fault) :
    fault.isCrash = true := by
  induction passes generalizing orders group state with
  | nil => cases ended
  | cons pass rest ih =>
    obtain ⟨first, chosenLater⟩ := List.forall_mem_cons.mp chosen
    simp only [Pipeline.runPasses] at ended
    split at ended
    · next met opened =>
      cases ended
      exact isCrash_of_runPass tolerated first opened
    · exact ih chosenLater (error_of_map_eq_error ended)

/-- The same for rounds. -/
theorem isCrash_of_runRounds (tolerated : settings.continueOnError = true)
    {passes : List (Pass σ)} (chosen : ∀ pass ∈ passes, Chosen settings pass)
    {schedule : Schedule} {finished rounds : Nat}
    (ended : (Pipeline.runRounds settings passes schedule finished rounds group state).verdict =
      .error fault) : fault.isCrash = true := by
  induction rounds generalizing finished group state with
  | zero => cases ended
  | succ rounds ih =>
    simp only [Pipeline.runRounds, runRound_eq chosen] at ended
    split at ended
    · next met opened =>
      cases ended
      exact isCrash_of_runPasses tolerated chosen opened
    · cases ended
    · exact ih ended

/-- Passes run one part after the other. -/
theorem runPasses_append {front rear : List (Pass σ)} {orders : Nat → VisitOrder}
    (ran : (Pipeline.runPasses settings (front ++ rear) orders group state).verdict =
      .ok changed) :
    ∃ ordersLater later, (Pipeline.runPasses settings rear ordersLater
        (Pipeline.runPasses settings front orders group state).subject
        (Pipeline.runPasses settings front orders group state).state).verdict = .ok later ∧
      (Pipeline.runPasses settings (front ++ rear) orders group state).subject =
        (Pipeline.runPasses settings rear ordersLater
          (Pipeline.runPasses settings front orders group state).subject
          (Pipeline.runPasses settings front orders group state).state).subject ∧
      (Pipeline.runPasses settings (front ++ rear) orders group state).state =
        (Pipeline.runPasses settings rear ordersLater
          (Pipeline.runPasses settings front orders group state).subject
          (Pipeline.runPasses settings front orders group state).state).state := by
  induction front generalizing orders group state changed with
  | nil => exact ⟨orders, changed, ran, rfl, rfl⟩
  | cons pass rest ih =>
    simp only [List.cons_append, Pipeline.runPasses] at ran ⊢
    split at ran
    · cases ran
    · obtain ⟨later, ranLater, _⟩ := exists_of_map_eq_ok ran
      exact ih ranLater

/-- The passes that remove members, with which a round begins. -/
def removals (settings : Settings) : List (Pass σ) :=
  (if settings.cleanup.unusedMethods then [Pass.unusedMethods] else []) ++
    if settings.cleanup.unusedFields then [Pass.unusedFields] else []

/-- The removals leave the survivors, and list nobody. -/
theorem declared_removals (settings : Settings) (orders : Nat → VisitOrder) (group : ClassGroup)
    (state : RunState σ) :
    (Pipeline.runPasses settings (removals settings) orders group state).subject.declared =
        (survivors settings group).declared ∧
      (Pipeline.runPasses settings (removals settings) orders group state).state.failed =
        state.failed := by
  obtain ⟨⟨_, ranMethods⟩, leftMethods, sameMethods⟩ :=
    runPass_unusedMethods_accounts settings (orders 0) group state
  cases removesMethods : settings.cleanup.unusedMethods with
  | false =>
    obtain ⟨⟨_, ranFields⟩, leftFields, sameFields⟩ :=
      runPass_unusedFields_accounts settings (orders 0) group state
    cases removesFields : settings.cleanup.unusedFields with
    | false => simp [removals, Pipeline.runPasses, survivors, removesMethods, removesFields]
    | true =>
      simp [removals, Pipeline.runPasses, survivors, removesMethods, removesFields, ranFields,
        leftFields, sameFields]
  | true =>
    obtain ⟨⟨_, ranFields⟩, leftFields, sameFields⟩ := runPass_unusedFields_accounts settings
      (orders 1) (Pipeline.runPass settings Pass.unusedMethods (orders 0) group state).subject
      (Pipeline.runPass settings Pass.unusedMethods (orders 0) group state).state
    cases removesFields : settings.cleanup.unusedFields with
    | false =>
      simp [removals, Pipeline.runPasses, survivors, removesMethods, removesFields, ranMethods,
        leftMethods, sameMethods]
    | true =>
      simp [removals, Pipeline.runPasses, survivors, removesMethods, removesFields, ranMethods,
        leftMethods, sameMethods, ranFields, leftFields, sameFields]

/-- A round that eliminates dead stores ends with a sweep over the survivors. -/
theorem exists_sweep (asked : settings.deadStores = true) {orders : Nat → VisitOrder}
    (ran : (Pipeline.runPasses settings (ofSettings settings).passes orders group state).verdict =
      .ok changed) :
    ∃ order middle midState first, middle.declared = (survivors settings group).declared ∧
      midState.failed = state.failed ∧
      (Pipeline.runPass settings Pass.deadStores order middle midState).verdict = .ok first ∧
      (Pipeline.runPasses settings (ofSettings settings).passes orders group state).subject =
        (Pipeline.runPass settings Pass.deadStores order middle midState).subject ∧
      (Pipeline.runPasses settings (ofSettings settings).passes orders group state).state =
        (Pipeline.runPass settings Pass.deadStores order middle midState).state := by
  have passes : (ofSettings settings : Engine σ).passes =
      removals settings ++ [Pass.deadStores] := by
    simp [ofSettings, removals, asked]
  rw [passes] at ran ⊢
  obtain ⟨ordersLater, later, ranLater, subject, after⟩ := runPasses_append ran
  obtain ⟨declared, failed⟩ := declared_removals settings orders group state
  rw [subject, after]
  simp only [Pipeline.runPasses] at ranLater ⊢
  split at ranLater
  · cases ranLater
  · next first swept => exact ⟨_, _, _, first, declared, failed, swept, rfl, rfl⟩

/-- The first sweep of a run meets the survivors with the list that the run began with. -/
theorem exists_first_sweep (asked : settings.deadStores = true) {schedule : Schedule}
    {rounds made : Nat} (many : 0 < rounds)
    (ran : (Pipeline.runRounds settings (ofSettings settings).passes schedule 0 rounds group
      state).verdict = .ok made) :
    ∃ order middle midState first changed,
      middle.declared = (survivors settings group).declared ∧ midState.failed = state.failed ∧
      (Pipeline.runPass settings Pass.deadStores order middle midState).verdict = .ok first ∧
      Edits settings (Pipeline.runPass settings Pass.deadStores order middle midState).subject
        (Pipeline.runPass settings Pass.deadStores order middle midState).state
        (Pipeline.runRounds settings (ofSettings settings).passes schedule 0 rounds group
          state).subject
        (Pipeline.runRounds settings (ofSettings settings).passes schedule 0 rounds group
          state).state changed := by
  have chosen : ∀ pass ∈ (ofSettings settings : Engine σ).passes, Chosen settings pass :=
    fun _ => chosen_of_mem_passes
  obtain ⟨rounds, rfl⟩ := Nat.exists_eq_add_one_of_ne_zero (Nat.ne_of_gt many)
  simp only [Pipeline.runRounds, runRound_eq chosen] at ran ⊢
  split at ran
  · cases ran
  · next ended =>
    obtain ⟨order, middle, midState, first, declared, failed, swept, subject, after⟩ :=
      exists_sweep asked ended
    rw [subject, after]
    exact ⟨order, middle, midState, first, false, declared, failed, swept, .done _ _⟩
  · next goesOn =>
    obtain ⟨order, middle, midState, first, declared, failed, swept, subject, after⟩ :=
      exists_sweep asked goesOn
    obtain ⟨changed, edits⟩ := Edits.runRounds chosen ran
    rw [subject, after] at edits ⊢
    exact ⟨order, middle, midState, first, changed, declared, failed, swept, edits⟩

/-- Some method that is left by the first removal of methods has no branches and no frame, and a
sweep comes to it that may remove something. -/
def Interrupted (settings : Settings) (group : ClassGroup) : Prop :=
  settings.deadStores = true ∧ 1 ≤ settings.maxIterations ∧ 1 ≤ settings.maxRemovals ∧
    ∃ owner method, (owner, method) ∈ (survivors settings group).declared ∧ method.Breaks owner

/-- A run that was not interrupted met no method without a frame. -/
theorem not_interrupted_of_runRounds (distinct : group.references.Nodup)
    (unlisted : state.failed = []) {schedule : Schedule} {made : Nat}
    (ran : (Pipeline.runRounds settings (ofSettings settings).passes schedule 0
      settings.maxIterations group state).verdict = .ok made) :
    ¬Interrupted settings group := by
  rintro ⟨asked, many, positive, owner, method, member, breaks⟩
  obtain ⟨order, middle, midState, first, _, declared, failed, swept, _⟩ :=
    exists_first_sweep asked many ran
  have distinctMiddle : middle.references.Nodup := by
    rw [ClassGroup.references, declared]
    exact distinct.sublist ((survivors_sublist settings group).map _)
  rw [← declared] at member
  obtain ⟨decl, inside, rfl, declares⟩ := ClassGroup.mem_declared.mp member
  obtain ⟨fault, refused, crash⟩ := DeadStore.eliminate_of_breaks breaks positive
  have calm := calm_of_runPass (apart_of_references distinctMiddle) swept decl inside
  have visited : method.reference decl.name ∉ midState.failed := by
    rw [failed, unlisted]
    exact List.not_mem_nil
  have usual := (calm method declares visited breaks.1 fault refused).1
  simp [Fault.isFatal, crash] at usual

/-- Where failures are tolerated and no reference is declared twice, a run succeeds exactly if it is
not interrupted, in whatever order the classes are visited. -/
theorem exists_process_iff (tolerated : settings.continueOnError = true)
    (distinct : group.references.Nodup) (schedule : Schedule) (memory : σ) :
    (∃ account, ((ofSettings settings).process schedule group memory).verdict = .ok account) ↔
      ¬Interrupted settings group := by
  constructor
  · rintro ⟨account, succeeded⟩
    obtain ⟨made, ran, -⟩ := exists_of_map_eq_ok succeeded
    exact not_interrupted_of_runRounds distinct rfl ran
  · intro goesOn
    suffices rounds : ∃ made, (Pipeline.run settings (ofSettings settings).passes schedule
        settings.maxIterations group (.start memory)).verdict = .ok made by
      obtain ⟨made, ran⟩ := rounds
      exact ⟨_, congrArg (Except.map _) ran⟩
    rcases Nat.eq_zero_or_pos settings.maxIterations with none | many
    · rw [none]
      exact ⟨0, rfl⟩
    · apply exists_runRounds tolerated distinct
      intro asked positive owner method member breaks
      exact goesOn ⟨asked, many, positive, owner, method, member, breaks⟩

/-- Where failures are tolerated, a run that ends with a fault broke off. -/
theorem isCrash_of_process (tolerated : settings.continueOnError = true) {schedule : Schedule}
    {memory : σ}
    (ended : ((ofSettings settings).process schedule group memory).verdict = .error fault) :
    fault.isCrash = true :=
  isCrash_of_runRounds tolerated (fun _ => chosen_of_mem_passes) (error_of_map_eq_error ended)

end Engine

end ClassTrim
