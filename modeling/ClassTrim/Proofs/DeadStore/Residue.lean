import ClassTrim.Proofs.DeadStore.Exhaustion

/-!
# What an elimination leaves

Of the instructions with side effects, an elimination takes stores only. What is swept away with
a candidate has no side effects, and neither has what is inserted, so field accesses, calls,
allocations and transfers of control are left in full and in order.

An elimination that has room for it leaves no candidate. It stops early only where there is
none, and it cannot use up a limit that covers the instructions that do more than to discard a
value without retiring all of these; what then is left holds nothing to retire. A second
elimination finds nothing to do.
-/

namespace ClassTrim

/-- Whether the operation has a side effect outside the local slots. -/
def Op.isLasting : Op → Bool
  | .store _ _ => false
  | op => op.hasSideEffect

/-- What has no side effect has none outside the local slots. -/
theorem Op.isLasting_of_pure {op : Op} (pure : op.hasSideEffect = false) :
    op.isLasting = false := by
  cases op <;> first | rfl | exact pure

namespace Body

variable {body : Body} {instruction : Instruction}

/-- The instructions with side effects outside the local slots, in order. -/
def lasting (body : Body) : List Instruction :=
  body.instructions.filter (·.op.isLasting)

/-- Erasing an instruction without lasting effects keeps all that have some. -/
theorem lasting_erase (member : instruction ∈ body.instructions)
    (passing : instruction.op.isLasting = false) :
    (body.erase instruction.id).lasting = body.lasting := by
  obtain ⟨front, rear, split⟩ := List.append_of_mem member
  simp [lasting, instructions_erase split, split, passing]

/-- Inserting an instruction without lasting effects adds none that has some. -/
theorem lasting_splice (member : instruction ∈ body.instructions) {op : Op}
    (passing : op.isLasting = false) :
    (body.splice instruction.id op).lasting = body.lasting := by
  obtain ⟨front, rear, split⟩ := List.append_of_mem member
  simp [lasting, instructions_splice split, split, passing, List.filter_cons]

end Body

namespace Session

variable {session next : Session} {waiting later : List ValueId}

/-- To discard a value has no lasting effect. -/
theorem isLasting_discardOp (type : StackType) : (discardOp type).isLasting = false := by
  rcases discardOp_cases type with ⟨_, op⟩ | ⟨_, op⟩ <;> rw [op] <;> rfl

/-- A step keeps every instruction with a lasting effect, and makes none. -/
theorem Step.lasting_eq (step : Step session waiting next later) :
    next.body.lasting = session.body.lasting := by
  cases step with
  | pass => rfl
  | delete deletes pure => exact Body.lasting_erase deletes.member (Op.isLasting_of_pure pure)
  | collapse collapses =>
    exact Body.lasting_erase collapses.member
      (Op.isLasting_of_pure (hasSideEffect_of_isDuplication collapses.copies))
  | discard discards =>
    exact Body.lasting_splice discards.member (isLasting_discardOp _)

/-- Any number of steps keeps the instructions with lasting effects, in order. -/
theorem Steps.lasting_eq (steps : Steps session waiting next later) :
    next.body.lasting = session.body.lasting := by
  induction steps with
  | done => rfl
  | next step _ ih => rw [ih, step.lasting_eq]

end Session

namespace DeadStore

variable {frame : Frame} {body last : Body} {simulation again : Simulation} {id : InstructionId}
  {instruction : Instruction} {reports : List Report}

/-- What nothing observes has no lasting effect. -/
theorem isLasting_of_isDead {graph : Graph} (dead : isDead body graph instruction = true) :
    instruction.op.isLasting = false := by
  cases op : instruction.op <;> first | rfl | simp [isDead, op] at dead

/-- Every stage of an elimination has the lasting instructions of the first. -/
theorem Staged.lasting_eq {stage : Body} (staged : Staged frame body stage)
    (fresh : frame.stack = []) (straight : body.hasBranches = false)
    (ran : Simulation.run frame body = .ok simulation) : stage.lasting = body.lasting := by
  induction staged with
  | start => rfl
  | remove staged ran' found ih =>
    obtain ⟨stageStraight, _⟩ := staged.exists_run fresh straight ran
    obtain ⟨instruction, place, context, settled, deletes, dead, steps, _, removed⟩ :=
      exists_remove_candidate fresh stageStraight ran' found
    rw [removed]
    show settled.body.lasting = _
    rw [steps.lasting_eq, ← ih]
    exact Body.lasting_erase deletes.member (isLasting_of_isDead dead)

/-- A candidate is or takes along an instruction that does more than to discard. -/
theorem work_pos_of_candidate? (fresh : frame.stack = []) (straight : body.hasBranches = false)
    (ran : Simulation.run frame body = .ok simulation)
    (found : candidate? body simulation.graph = some id) : 0 < body.work := by
  obtain ⟨_, _, _, _, less, _⟩ := exists_remove_accounts fresh straight ran found
  exact Nat.zero_lt_of_lt less

/-- An elimination with room for all the work of a body leaves no candidate. -/
theorem candidate?_of_eliminateIn (fresh : frame.stack = []) {limit : Nat}
    (straight : body.hasBranches = false) (ran : Simulation.run frame body = .ok simulation)
    (room : body.work ≤ limit)
    (eliminated : eliminateIn frame limit body = .ok (last, reports))
    (rerun : Simulation.run frame last = .ok again) : candidate? last again.graph = none := by
  rcases Nat.lt_or_ge reports.length limit with unspent | spent
  · obtain ⟨other, runs, nothing⟩ := (trail_of_eliminateIn fresh straight eliminated).2 unspent
    obtain rfl := Except.ok.inj (rerun.symm.trans runs)
    exact nothing
  · -- All the work is done, and a candidate would be some more.
    have idle := (eliminateIn_census fresh straight ran eliminated).1.work
    obtain ⟨straightLast, _⟩ :=
      (Staged.start.eliminateIn eliminated).exists_run fresh straight ran
    cases found : candidate? last again.graph with
    | none => rfl
    | some id =>
      have positive := work_pos_of_candidate? fresh straightLast rerun found
      omega

variable {owner : String} {method : MethodDecl} {limit : Nat}

/-- An elimination keeps the lasting instructions of a method. -/
theorem eliminate_lasting (eliminated : eliminate owner method limit = .ok (some (last, reports))) :
    ∃ body, method.body = some body ∧ last.lasting = body.lasting := by
  obtain ⟨frame, body, simulation, _, framed, given, straight, _, _, ran, _⟩ :=
    eliminate_census eliminated
  obtain ⟨same, framedAgain, inner, _⟩ := eliminateIn_of_eliminate given straight eliminated
  cases framed.symm.trans framedAgain
  refine ⟨body, given, ?_⟩
  exact (Staged.start.eliminateIn inner).lasting_eq (Frame.stack_of_forMethod framed) straight ran

/-- After an elimination that had room for all the work, a second one finds nothing. -/
theorem eliminate_again (eliminated : eliminate owner method limit = .ok (some (last, reports)))
    (room : ∀ body, method.body = some body → body.work ≤ limit) (more : Nat) :
    eliminate owner { method with body := some last } more = .ok none := by
  obtain ⟨frame, body, simulation, again, framed, given, straight, census, _, ran, rerun⟩ :=
    eliminate_census eliminated
  obtain ⟨same, framedAgain, inner, _⟩ := eliminateIn_of_eliminate given straight eliminated
  cases framed.symm.trans framedAgain
  have fresh := Frame.stack_of_forMethod framed
  have exhausted := candidate?_of_eliminateIn fresh straight ran (room body given) inner rerun
  obtain ⟨straightLast, _⟩ := (Staged.start.eliminateIn inner).exists_run fresh straight ran
  have framedLast := (census.forMethod_eq given 0 (some owner)).trans framed
  rw [eliminate_eq rfl straightLast framedLast]
  cases more with
  | zero => rfl
  | succ more => simp [eliminateIn, rerun, exhausted, Except.map, outcome]

end DeadStore

end ClassTrim
