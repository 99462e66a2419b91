import ClassTrim.Proofs.Engine.Fixpoint
import ClassTrim.Proofs.Engine.Sweep
import ClassTrim.Proofs.Usage.Rewriting

/-!
# Two rounds are enough

A pass is settled if it would change nothing: no field is unused, or no store of a method that
may be visited is dead. To run a pass settles it, provided that the limit of removals covers
every body. No edit but a removal of methods unsettles a pass. The removal of fields leaves the
methods as they are. The elimination of a store leaves the members in use as they are, and it is
of no use to a method in which nothing is left to eliminate.

So without removal of methods the first round settles every pass, and the second finds nothing
to do.
-/

namespace ClassTrim

/-- The limit covers all instructions, of each body, that do more than to discard a value. -/
def ClassGroup.Fits (group : ClassGroup) (limit : Nat) : Prop :=
  ∀ owner method body, (owner, method) ∈ group.declared → method.body = some body →
    body.work ≤ limit

namespace Usage

/-- Which fields go is decided by the members in use and by the group without its bodies. -/
theorem removeUnusedFields_congr {group next : ClassGroup}
    (sameOps : next.lasting = group.lasting) (sameShape : next.bare = group.bare) :
    (removeUnusedFields next).1 = (removeUnusedFields group).1 := by
  rw [removeUnusedFields, removeUnusedFields, removeFields_eq, removeFields_eq,
    usedFields_congr sameOps sameShape]
  exact unusedFields_congr _ sameShape

/-- A second removal of fields finds none. -/
theorem removeUnusedFields_again (group : ClassGroup) :
    (removeUnusedFields (removeUnusedFields group).2).1 = [] := by
  have kept : (removeUnusedFields group).2 = keepFields group (usedFields group) := by
    rw [removeUnusedFields, removeFields_eq]
  rw [kept, removeUnusedFields, removeFields_eq, usedFields_keepFields]
  exact unusedFields_keepFields group _

end Usage

namespace Engine

variable {σ : Type} {settings : Settings} {group next last : ClassGroup}
  {state nextState lastState : RunState σ} {changed : Bool} {owner : String}
  {method : MethodDecl} {failed grown : List MethodRef}

/-- Whether or not it comes to its end, a visit of methods does no more than to rewrite some of
them. -/
theorem rewrites_visitMethods (settings : Settings) (site : Site)
    (methods : List (MethodDecl × Bool)) (state : RunState σ) :
    Relation.ReflTransGen DeadStore.Rewrite (site.hold (methods.map Prod.fst))
      (site.hold
        (Pipeline.visitMethods settings Pass.deadStores site.owner methods state).subject) := by
  induction methods generalizing site state with
  | nil => exact .refl
  | cons entry rest ih =>
    obtain ⟨method, selected⟩ := entry
    cases selected with
    | false =>
      simp only [Pipeline.visitMethods, List.map_cons, ← Site.hold_skip]
      exact ih (site.skip method) state
    | true =>
      rcases onMethod_deadStores_cases settings site.owner method state with
        ⟨fault, _, outcome⟩ | ⟨_, outcome⟩ | ⟨body, reports, eliminated, outcome⟩
      · simp only [Pipeline.visitMethods, outcome, List.map_cons]
        split
        · exact .refl
        · rw [← Site.hold_skip, ← Site.hold_skip]
          exact ih (site.skip method) _
      · simp only [Pipeline.visitMethods, outcome, List.map_cons, Option.getD_none,
          ← Site.hold_skip]
        exact ih (site.skip method) state
      · simp only [Pipeline.visitMethods, outcome, List.map_cons, Option.getD_some]
        have here : ∀ first, (site.narrow (rest.map Prod.fst)).hold [first] =
            site.hold (first :: rest.map Prod.fst) :=
          fun first => site.hold_narrow [first] _
        have rewrite : DeadStore.Rewrite ((site.narrow (rest.map Prod.fst)).hold [method])
          ((site.narrow (rest.map Prod.fst)).hold [{ method with body := some body }]) :=
            .intro eliminated
        rw [here, here] at rewrite
        have later := ih (site.skip { method with body := some body })
          ((state.markModified (method.reference site.owner)).record
            (storeEvents settings (method.reference site.owner) body reports))
        rw [Site.hold_skip, Site.hold_skip] at later
        exact .head rewrite later

/-- So does a visit of classes, in whatever order. -/
theorem rewrites_visitClasses (settings : Settings) (positions : List Nat)
    (classes : List ClassDecl) (state : RunState σ) :
    Relation.ReflTransGen DeadStore.Rewrite ⟨classes⟩
      ⟨(Pipeline.visitClasses settings Pass.deadStores positions classes state).subject⟩ := by
  induction positions generalizing classes state with
  | nil => exact .refl
  | cons position rest ih =>
    cases found : classes[position]? with
    | none =>
      simp only [Pipeline.visitClasses, found]
      exact ih classes state
    | some decl =>
      obtain ⟨front, rear, split, replaced⟩ := exists_split found
      have here : Relation.ReflTransGen DeadStore.Rewrite ⟨classes⟩ ⟨classes.set position
          (Pipeline.visitClass settings Pass.deadStores decl state).subject⟩ := by
        have rewrites := rewrites_visitMethods settings ⟨front, decl, [], [], rear⟩
          (decl.methods.map fun method =>
            (method, !state.isFailed (method.reference decl.name) &&
              (Pass.deadStores : Pass σ).accepts decl method)) state
        rw [Site.hold_whole, Site.hold_whole, List.map_map] at rewrites
        simp only [Function.comp_def, List.map_id'] at rewrites
        rw [replaced, split]
        exact rewrites
      simp only [Pipeline.visitClasses, found]
      split
      · exact here
      · exact here.trans (ih _ _)

/-- Nothing is left to eliminate in the method, or it is left alone. -/
def Spent (settings : Settings) (failed : List MethodRef) (owner : String)
    (method : MethodDecl) : Prop :=
  method.isStraight = true →
    DeadStore.eliminate owner method settings.maxRemovals = .ok none ∨
      method.reference owner ∈ failed

/-- Who is spent stays so when more are listed. -/
theorem Spent.mono (spent : Spent settings failed owner method) (subset : failed ⊆ grown) :
    Spent settings grown owner method :=
  fun straight => (spent straight).imp_right fun member => subset member

/-- A treatment with room for all the work of a method leaves it spent, unless it fails. -/
theorem spent_attend (room : ∀ body, method.body = some body → body.work ≤ settings.maxRemovals)
    (subset : failed ⊆ grown)
    (listed : (attend settings failed owner method).failed = true →
      method.reference owner ∈ grown) :
    Spent settings grown owner (attend settings failed owner method).method := by
  cases selected : !decide (method.reference owner ∈ failed) && method.isStraight with
  | false =>
    have alone : attend settings failed owner method = ⟨method, [], false, false⟩ := by
      simp only [attend, visit, selected, Bool.false_eq_true, if_false]
    rw [alone]
    intro straight
    simp only [straight, Bool.and_true, Bool.not_eq_false', decide_eq_true_eq] at selected
    exact .inr (subset selected)
  | true =>
    have treated : attend settings failed owner method = treat settings owner method := by
      simp only [attend, visit, selected, if_true]
    rw [treated] at listed ⊢
    unfold treat at listed ⊢
    split at listed
    · exact fun _ => .inr (listed rfl)
    · next idle => exact fun _ => .inl idle
    · next eliminated =>
      exact fun _ => .inl (DeadStore.eliminate_again eliminated room settings.maxRemovals)

/-- Visits leave the classes alone that they do not come to. -/
theorem Visits.getElem?_eq {positions : List Nat} {classes lastClasses : List ClassDecl}
    (visits : Visits settings positions classes state lastClasses lastState changed)
    {position : Nat} (missed : position ∉ positions) :
    lastClasses[position]? = classes[position]? := by
  induction visits with
  | done => rfl
  | visit _ _ _ _ ih =>
    obtain ⟨differ, missedLater⟩ := not_or.mp (mt List.mem_cons.mpr missed)
    rw [ih missedLater, List.getElem?_set_ne (Ne.symm differ)]

/-- Visits that come to no class twice leave every method spent that they come to. -/
theorem Visits.spent {positions : List Nat} {classes lastClasses : List ClassDecl}
    (visits : Visits settings positions classes state lastClasses lastState changed)
    (once : positions.Nodup)
    (room : ∀ position ∈ positions, ∀ decl, classes[position]? = some decl →
      ∀ method ∈ decl.methods, ∀ body, method.body = some body →
        body.work ≤ settings.maxRemovals) :
    ∀ position ∈ positions, ∀ decl, lastClasses[position]? = some decl →
      ∀ method ∈ decl.methods, Spent settings lastState.failed decl.name method := by
  induction visits with
  | done => simp
  | @visit here rest classes last decl state middle _ _ found _ attended visits ih =>
    obtain ⟨fresh, onceLater⟩ := List.nodup_cons.mp once
    obtain ⟨roomHere, roomLater⟩ := List.forall_mem_cons.mp room
    have swept : last[here]? = some (sweepClass settings state.failed decl) := by
      rw [visits.getElem?_eq fresh, List.getElem?_set_self (List.getElem?_eq_some_iff.mp found).1]
    have spentHere : ∀ method ∈ (sweepClass settings state.failed decl).methods,
        Spent settings middle.failed decl.name method := by
      intro method member
      obtain ⟨_, listed, rfl⟩ := List.mem_map.mp member
      obtain ⟨before, inside, rfl⟩ := List.mem_map.mp listed
      apply spent_attend ?_ attended.failed_subset
      · exact fun failed => (attended.failed _).mpr (.inr ⟨_, listed, failed⟩)
      · exact roomHere decl found before inside
    intro position member other there
    by_cases same : position = here
    · subst same
      cases swept.symm.trans there
      exact fun method inside => (spentHere method inside).mono visits.failed_subset
    · have listed : position ∈ rest := (List.mem_cons.mp member).resolve_left same
      refine ih onceLater ?_ position listed other there
      intro later inRest twin met
      rw [List.getElem?_set_ne (ne_of_mem_of_not_mem inRest fresh).symm] at met
      exact roomLater later inRest twin met

/-- The pass would change nothing. -/
inductive Settled (settings : Settings) (group : ClassGroup) (state : RunState σ) :
    Pass σ → Prop
  | fields (used : (Usage.removeUnusedFields group).1 = []) :
      Settled settings group state Pass.unusedFields
  | stores (spent : ∀ owner method, (owner, method) ∈ group.declared →
        Spent settings state.failed owner method) :
      Settled settings group state Pass.deadStores

/-- To run a pass settles it. -/
theorem settled_runPass {pass : Pass σ} (chosen : Chosen settings pass)
    (kept : settings.cleanup.unusedMethods = false) (room : group.Fits settings.maxRemovals)
    {order : VisitOrder}
    (ran : (Pipeline.runPass settings pass order group state).verdict = .ok changed) :
    Settled settings (Pipeline.runPass settings pass order group state).subject
      (Pipeline.runPass settings pass order group state).state pass := by
  cases chosen with
  | unusedMethods asked =>
    rw [kept] at asked
    cases asked
  | unusedFields =>
    rw [runPass_unusedFields]
    split
    · next used => exact .fields used
    · exact .fields (Usage.removeUnusedFields_again group)
  | deadStores =>
    have visits := visits_of_runPass ran
    refine .stores fun owner method member => ?_
    obtain ⟨decl, inside, rfl, declares⟩ := ClassGroup.mem_declared.mp member
    obtain ⟨position, found⟩ := List.getElem?_of_mem inside
    by_cases met : position ∈ order.positions group.classes.length
    · refine visits.spent (order.nodup_positions _) ?_ position met decl found method declares
      intro other _ twin there before inTwin body
      exact room twin.name before body
        (ClassGroup.mem_declared.mpr ⟨twin, List.mem_of_getElem? there, rfl, inTwin⟩)
    · -- Every position is met, and where nothing was nothing is now.
      have outside : group.classes[position]? = none :=
        List.getElem?_eq_none (Nat.not_lt.mp (mt VisitOrder.mem_positions.mpr met))
      cases (outside.symm.trans (visits.getElem?_eq met).symm).trans found

/-- No edit unsettles a pass, as long as methods are kept. -/
theorem Settled.edit {pass : Pass σ} (settled : Settled settings group state pass)
    (kept : settings.cleanup.unusedMethods = false)
    (edit : Edit settings group state next nextState changed) :
    Settled settings next nextState pass := by
  cases settled with
  | fields used =>
    cases edit with
    | methods chosen =>
      rw [kept] at chosen
      cases chosen
    | fields found => exact absurd used found
    | stores eliminated =>
      have rewrite := DeadStore.Rewrite.intro eliminated
      refine .fields ?_
      rw [Usage.removeUnusedFields_congr rewrite.lasting_eq rewrite.bare_eq]
      exact used
    | failure => exact .fields used
  | stores spent =>
    cases edit with
    | methods chosen =>
      rw [kept] at chosen
      cases chosen
    | fields =>
      refine .stores fun owner method member => spent owner method ?_
      rwa [(Usage.removeUnusedFields_accounts group).1] at member
    | @stores site method _ body _ eliminated =>
      refine .stores fun owner other member => ?_
      rcases Site.mem_declared_hold.mp member with here | elsewhere
      · -- A spent method is rewritten only if it is listed, and then so is the result.
        cases here
        intro _
        have straight := (DeadStore.not_fails_of_eliminate eliminated).1
        rcases spent _ method (Site.mem_declared_hold.mpr (.inl rfl)) straight with idle | listed
        · rw [eliminated] at idle
          cases idle
        · exact .inr listed
      · exact spent owner other (Site.mem_declared_hold.mpr (.inr elsewhere))
    | failure =>
      exact .stores fun owner other member =>
        (spent owner other member).mono fun _ => List.mem_insert_of_mem

/-- No number of edits unsettles a pass, as long as methods are kept. -/
theorem Settled.edits {pass : Pass σ} (settled : Settled settings group state pass)
    (kept : settings.cleanup.unusedMethods = false)
    (edits : Edits settings group state last lastState changed) :
    Settled settings last lastState pass :=
  edits.keeps (motive := fun group state => Settled settings group state pass)
    (fun edit settled => settled.edit kept edit) settled

/-- No edit adds work to a body, so a limit that covered the group still does. -/
theorem Edit.fits {limit : Nat} (edit : Edit settings group state next nextState changed)
    (room : group.Fits limit) : next.Fits limit := by
  intro owner method body member given
  cases edit with
  | methods =>
    exact room owner method body ((Usage.removeUnusedMethods_accounts group).1.subset member) given
  | fields =>
    rw [(Usage.removeUnusedFields_accounts group).1] at member
    exact room owner method body member given
  | @stores site before _ _ _ eliminated =>
    rcases Site.mem_declared_hold.mp member with here | elsewhere
    · cases here
      cases given
      obtain ⟨_, first, _, _, _, held, _, census, _⟩ := DeadStore.eliminate_census eliminated
      have bound := room _ before first (Site.mem_declared_hold.mpr (.inl rfl)) held
      have less := census.work
      omega
    · exact room owner method body (Site.mem_declared_hold.mpr (.inr elsewhere)) given
  | failure => exact room owner method body member given

/-- No number of edits adds work to a body. -/
theorem Edits.fits {limit : Nat} (edits : Edits settings group state last lastState changed)
    (room : group.Fits limit) : last.Fits limit :=
  edits.keeps (motive := fun group _ => group.Fits limit) Edit.fits room

/-- A round settles every pass that it runs. -/
theorem settled_runPasses {passes : List (Pass σ)} (chosen : ∀ pass ∈ passes, Chosen settings pass)
    (kept : settings.cleanup.unusedMethods = false) (room : group.Fits settings.maxRemovals)
    {orders : Nat → VisitOrder}
    (ran : (Pipeline.runPasses settings passes orders group state).verdict = .ok changed) :
    ∀ pass ∈ passes, Settled settings
      (Pipeline.runPasses settings passes orders group state).subject
      (Pipeline.runPasses settings passes orders group state).state pass := by
  induction passes generalizing orders group state changed with
  | nil => simp
  | cons pass rest ih =>
    obtain ⟨first, chosenLater⟩ := List.forall_mem_cons.mp chosen
    simp only [Pipeline.runPasses] at ran ⊢
    split at ran
    · cases ran
    · next opened =>
      obtain ⟨later, ranLater, rfl⟩ := exists_of_map_eq_ok ran
      have settled := settled_runPass first kept room opened
      have edits := Edits.runPasses chosenLater ranLater
      refine List.forall_mem_cons.mpr ⟨settled.edits kept edits, ?_⟩
      exact ih chosenLater ((Edits.runPass first opened).fits room) ranLater

/-- A treatment of a spent method changes nothing. -/
theorem changed_attend_of_spent (spent : Spent settings failed owner method) :
    (attend settings failed owner method).changed = false := by
  unfold attend visit
  split
  · next selected =>
    simp only [Bool.and_eq_true, Bool.not_eq_true', decide_eq_false_iff_not] at selected
    have idle := (spent selected.2).resolve_right selected.1
    simp only [treat, idle]
  · rfl

/-- A sweep over spent methods changes nothing. -/
theorem Visits.changed_of_spent {positions : List Nat} {classes lastClasses : List ClassDecl}
    (visits : Visits settings positions classes state lastClasses lastState changed)
    (spent : ∀ decl ∈ classes, ∀ method ∈ decl.methods,
      Spent settings state.failed decl.name method) : changed = false := by
  induction visits with
  | done => rfl
  | @visit here rest classes _ decl state middle _ later found _ attended visits ih =>
    have every : ∀ method ∈ decl.methods,
        (attend settings state.failed decl.name method).changed = false :=
      fun method inside =>
        changed_attend_of_spent (spent decl (List.mem_of_getElem? found) method inside)
    have unchanged : (attendClass settings state.failed decl).any (·.2.changed) = false := by
      rw [attendClass, List.any_map, List.any_eq_false]
      intro method inside
      simp [every method inside]
    rw [unchanged, Bool.false_or]
    apply ih
    rw [set_sweepClass_of_unchanged found every]
    exact fun other member method inside =>
      (spent other member method inside).mono attended.failed_subset

/-- A settled pass changes nothing. -/
theorem Settled.verdict {pass : Pass σ} (settled : Settled settings group state pass)
    {order : VisitOrder}
    (ran : (Pipeline.runPass settings pass order group state).verdict = .ok changed) :
    changed = false := by
  cases settled with
  | fields used =>
    rw [runPass_unusedFields, if_pos used] at ran
    exact (Except.ok.inj ran).symm
  | stores spent =>
    exact (visits_of_runPass ran).changed_of_spent fun decl member method inside =>
      spent decl.name method (ClassGroup.mem_declared.mpr ⟨decl, member, rfl, inside⟩)

/-- A round of settled passes changes nothing. -/
theorem runPasses_of_settled {passes : List (Pass σ)}
    (chosen : ∀ pass ∈ passes, Chosen settings pass)
    (kept : settings.cleanup.unusedMethods = false)
    (settled : ∀ pass ∈ passes, Settled settings group state pass) {orders : Nat → VisitOrder}
    (ran : (Pipeline.runPasses settings passes orders group state).verdict = .ok changed) :
    changed = false := by
  induction passes generalizing orders group state changed with
  | nil => exact (Except.ok.inj ran).symm
  | cons pass rest ih =>
    obtain ⟨first, chosenLater⟩ := List.forall_mem_cons.mp chosen
    obtain ⟨settledFirst, settledLater⟩ := List.forall_mem_cons.mp settled
    simp only [Pipeline.runPasses] at ran
    split at ran
    · cases ran
    · next opened =>
      obtain ⟨later, ranLater, rfl⟩ := exists_of_map_eq_ok ran
      have edits := Edits.runPass first opened
      rw [settledFirst.verdict opened, Bool.false_or]
      exact ih chosenLater (fun other member => (settledLater other member).edits kept edits)
        ranLater

/-- Settled passes end a run with its next round. -/
theorem runRounds_of_settled {passes : List (Pass σ)}
    (chosen : ∀ pass ∈ passes, Chosen settings pass)
    (kept : settings.cleanup.unusedMethods = false)
    (settled : ∀ pass ∈ passes, Settled settings group state pass) {schedule : Schedule}
    {finished rounds made : Nat}
    (ran : (Pipeline.runRounds settings passes schedule finished rounds group state).verdict =
      .ok made) : made ≤ finished + 1 := by
  cases rounds with
  | zero =>
    cases ran
    omega
  | succ rounds =>
    simp only [Pipeline.runRounds, runRound_eq chosen] at ran
    split at ran
    · cases ran
    · cases ran
      omega
    · next goesOn => cases runPasses_of_settled chosen kept settled goesOn

/-- A run that keeps methods, and has room for the work of every body, makes two rounds at
most. -/
theorem runRounds_le_two {passes : List (Pass σ)} (chosen : ∀ pass ∈ passes, Chosen settings pass)
    (kept : settings.cleanup.unusedMethods = false) (room : group.Fits settings.maxRemovals)
    {schedule : Schedule} {rounds made : Nat}
    (ran : (Pipeline.runRounds settings passes schedule 0 rounds group state).verdict =
      .ok made) : made ≤ 2 := by
  cases rounds with
  | zero =>
    cases ran
    omega
  | succ rounds =>
    simp only [Pipeline.runRounds, runRound_eq chosen] at ran
    split at ran
    · cases ran
    · cases ran
      omega
    · next goesOn =>
      exact runRounds_of_settled chosen kept (settled_runPasses chosen kept room goesOn) ran

/-- To eliminate dead stores is to rewrite methods, and this changes nothing about the members in
use, whichever methods are rewritten, how often and within which limit. So where methods are kept
and the limit of removals covers the length of every body, a run that succeeds makes two rounds
at most, in whatever order the classes are visited. -/
theorem process_two_rounds (settings : Settings) (group : ClassGroup) (memory : σ) :
    (∀ (order : VisitOrder) (state : RunState σ), Relation.ReflTransGen DeadStore.Rewrite group
      (Pipeline.runPass settings Pass.deadStores order group state).subject) ∧
    (∀ last, Relation.ReflTransGen DeadStore.Rewrite group last →
      Usage.usedFields last = Usage.usedFields group ∧
        Usage.usedMethods last = Usage.usedMethods group) ∧
    (settings.cleanup.unusedMethods = false →
      (∀ owner method body, (owner, method) ∈ group.declared → method.body = some body →
        body.size ≤ settings.maxRemovals) →
      ∀ schedule account,
        ((ofSettings settings).process schedule group memory).verdict = .ok account →
          account.iterations ≤ 2) := by
  refine ⟨fun order state => rewrites_visitClasses settings _ group.classes state, ?_, ?_⟩
  · intro last rewrites
    obtain ⟨sameShape, sameOps⟩ := DeadStore.usage_of_rewrites rewrites
    exact ⟨Usage.usedFields_congr sameOps sameShape, Usage.usedMethods_congr sameOps sameShape⟩
  · intro kept covered schedule account succeeded
    obtain ⟨rounds, ran, rfl⟩ := exists_of_map_eq_ok succeeded
    have room : group.Fits settings.maxRemovals := by
      intro owner method body member given
      exact Nat.le_trans List.countP_le_length (covered owner method body member given)
    exact runRounds_le_two (fun _ => chosen_of_mem_passes) kept room ran

/-- The descriptor of fields that hold a long number. -/
def wide : FieldDescriptor :=
  ⟨"J", .long, by decide +kernel⟩

/-- A class with a field that is read into a slot and a field that is not read. -/
def gauge : ClassGroup :=
  ⟨[⟨"Gauge", some "java/lang/Object", [], 1, [⟨"level", wide, 8⟩, ⟨"spare", wide, 8⟩],
    [⟨"sample", toNothing, 8, some (.ofPlaced 2
      [(.field .getStatic ⟨"Gauge", "level", wide⟩, 0), (.store .long 0, 3), (.ret none, 4)])⟩]⟩]⟩

/-- The store goes and its value is discarded. The field that it read stays in use, the other
goes, and the second round is needed only to see that this is all. -/
theorem process_two_rounds_gauge :
    (Pipeline.runPass {} Pass.deadStores .ascending gauge (.start ())).verdict = .ok true ∧
      Usage.usedFields (Pipeline.runPass {} Pass.deadStores .ascending gauge (.start ())).subject =
        Usage.usedFields gauge ∧
      Usage.usedMethods (Pipeline.runPass {} Pass.deadStores .ascending gauge (.start ())).subject =
        Usage.usedMethods gauge ∧
      ∃ account, ((ofSettings {}).process .loadOrder gauge ()).verdict = .ok account ∧
        account.tally = ⟨1, 0, 1, 1, 0⟩ ∧ 1 < account.iterations ∧ account.iterations ≤ 2 := by
  obtain ⟨sweeps, keeps, bounded⟩ := process_two_rounds {} gauge ()
  obtain ⟨sameFields, sameMethods⟩ := keeps _ (sweeps .ascending (.start ()))
  have swept : (Pipeline.runPass {} Pass.deadStores .ascending gauge (.start ())).verdict =
      .ok true := by cbv
  have ended : ((ofSettings {}).process .loadOrder gauge ()).verdict.map
      (fun account => (account.tally, account.iterations)) = .ok (⟨1, 0, 1, 1, 0⟩, 2) := by cbv
  obtain ⟨account, succeeded, figures⟩ := exists_of_map_eq_ok ended
  obtain ⟨tally, rounds⟩ := Prod.mk.inj figures
  have covered : ∀ owner method body, (owner, method) ∈ gauge.declared →
      method.body = some body → body.size ≤ 10000 := by
    intro owner method body member given
    obtain ⟨_, rfl⟩ := Prod.mk.inj (List.mem_singleton.mp member)
    cases given
    decide
  refine ⟨swept, sameFields, sameMethods, account, succeeded, tally, ?_, ?_⟩
  · omega
  · exact bounded rfl covered .loadOrder account succeeded

end Engine

end ClassTrim
