import Mathlib.Control.Monad.Basic
import ClassTrim.DeadStore
import ClassTrim.Proofs.Retirement.Replay

/-!
# Elimination does not fail half-way

Once a body without branches has been run, every later stage of an elimination succeeds:
no branch leads anywhere, a candidate pushes nothing that anybody could take, and the body
that a removal leaves runs again. So the only faults of an elimination are those that it
meets before the first removal.
-/

namespace ClassTrim

namespace Session

variable {session next : Session} {waiting later : List ValueId}

/-- A body in which no instruction is a branch. -/
def Straight (session : Session) : Prop :=
  ∀ instruction ∈ session.body.instructions, instruction.op.isBranch = false

/-- To discard a value is no branch. -/
theorem isBranch_discardOp (type : StackType) : (discardOp type).isBranch = false := by
  rcases discardOp_cases type with ⟨_, op⟩ | ⟨_, op⟩ <;> rw [op] <;> rfl

/-- Dropping an instruction brings no branch into a body. -/
theorem Straight.deleted (straight : session.Straight) {instruction : Instruction}
    {id : ContextId} {context : Context} (hosts : session.Hosts instruction id context)
    (graph : Graph) : ((session.withGraph graph).drop instruction).Straight := by
  intro other member
  exact straight other ((Body.mem_erase hosts.member).mp member).1

/-- A step inserts no branches. -/
theorem Straight.step (straight : session.Straight) (step : Step session waiting next later) :
    next.Straight := by
  cases step with
  | pass => exact straight
  | delete deletes => exact straight.deleted deletes.toHosts _
  | collapse collapses => exact straight.deleted collapses.toHosts _
  | discard discards =>
    intro other member
    rcases (Body.mem_splice discards.member).mp member with old | rfl
    · exact straight other old
    · exact isBranch_discardOp _

/-- No number of steps brings a branch into a body. -/
theorem Straight.steps (straight : session.Straight) (steps : Steps session waiting next later) :
    next.Straight := by
  apply steps.invariant _ straight
  intro session next waiting later step straight
  exact straight.step step

/-- Where no branch leads anywhere, an instruction that nobody depends on can be removed. -/
theorem exists_remove_of_deletes (sound : session.Sound) (aimless : session.targets = [])
    {instruction : Instruction} {id : ContextId} {context : Context}
    (deletes : session.Deletes instruction id context) :
    ∃ settled, Steps (session.deleted instruction id) context.pops settled [] ∧
      session.remove instruction.id =
        (.ok settled.report, { settled with report := .empty }) := by
  have unaimed : ∀ other : Session, other.targets = session.targets →
      ∀ host, other.isTarget host = false := by
    intro other same host
    simp [isTarget, same, aimless]
  obtain ⟨settled, later, steps, outcome⟩ :=
    remove_of_deletes sound deletes (unaimed session rfl instruction)
  rcases outcome with ⟨nothing, succeeded⟩ | ⟨host, _, _, bars, _⟩
  · subst nothing
    exact ⟨settled, steps, succeeded⟩
  · have aimed := bars.aimed
    rw [unaimed settled steps.targets_eq host] at aimed
    cases aimed

end Session

namespace DeadStore

variable {frame : Frame} {body : Body} {simulation : Simulation} {id : InstructionId}

/-- A body without branches has no targets. -/
theorem branchTargets_eq_nil (straight : body.hasBranches = false) : body.branchTargets = [] := by
  have none : body.instructions.filterMap (·.op.branchTarget?) = [] := by
    apply List.filterMap_eq_nil_iff.mpr
    intro instruction member
    have noBranch : instruction.op.isBranch = false := by
      simpa using List.any_eq_false.mp straight instruction member
    cases op : instruction.op <;> simp_all [Op.isBranch, Op.branchTarget?]
  simp [Body.branchTargets, none]

/-- A candidate is an instruction of the body that pushes nothing. -/
theorem exists_candidate (found : candidate? body simulation.graph = some id) :
    ∃ instruction ∈ body.instructions, instruction.id = id ∧
      isDead body simulation.graph instruction = true ∧ instruction.op.effect.pushes = 0 := by
  obtain ⟨instruction, first, same⟩ := Option.map_eq_some_iff.mp found
  have dead := List.find?_some first
  refine ⟨instruction, List.mem_of_find?_eq_some first, same, dead, ?_⟩
  cases op : instruction.op <;> simp_all [isDead, Op.effect]

/-- A candidate of a body without branches is removed, and what is left is such a body
too. -/
theorem exists_remove_candidate (fresh : frame.stack = []) (straight : body.hasBranches = false)
    (ran : Simulation.run frame body = .ok simulation)
    (found : candidate? body simulation.graph = some id) :
    ∃ instruction place context settled,
      (Session.start body simulation).Deletes instruction place context ∧
      isDead body simulation.graph instruction = true ∧
      Session.Steps ((Session.start body simulation).deleted instruction place) context.pops
        settled [] ∧
      settled.body.hasBranches = false ∧
      (Session.start body simulation).remove id =
        (.ok settled.report, { settled with report := .empty }) := by
  obtain ⟨instruction, member, rfl, dead, silent⟩ := exists_candidate found
  have sound := Session.Sound.start fresh ran
  obtain ⟨place, context, hosts⟩ := sound.exists_hosts member
  have nothing : context.pushes = [] := by
    apply List.eq_nil_of_length_eq_zero
    rw [hosts.records.length_pushes, silent]
  have deletes : (Session.start body simulation).Deletes instruction place context :=
    ⟨hosts, by simp [nothing]⟩
  obtain ⟨settled, steps, removed⟩ :=
    Session.exists_remove_of_deletes sound (branchTargets_eq_nil straight) deletes
  refine ⟨instruction, place, context, settled, deletes, dead, steps, ?_, removed⟩
  have straightStart : (Session.start body simulation).Straight := by
    intro other inside
    simpa using List.any_eq_false.mp straight other inside
  apply List.any_eq_false.mpr
  intro other inside
  simpa using (straightStart.deleted hosts _).steps steps other inside

/-- The body that the removal of a candidate leaves runs again. -/
theorem exists_run_of_remove (fresh : frame.stack = [])
    (ran : Simulation.run frame body = .ok simulation) {report : Report}
    (removed : ((Session.start body simulation).remove id).1 = .ok report) :
    ∃ again, Simulation.run frame ((Session.start body simulation).remove id).2.body =
      .ok again := by
  obtain ⟨threaded, sound⟩ :=
    (Session.Threaded.start fresh ran).remove (Session.Sound.start fresh ran) removed
  exact threaded.exists_run sound fresh

/-- The bodies that an elimination passes through. -/
inductive Staged (frame : Frame) (body : Body) : Body → Prop
  | start : Staged frame body body
  | remove {stage : Body} {simulation : Simulation} {id : InstructionId}
      (staged : Staged frame body stage) (ran : Simulation.run frame stage = .ok simulation)
      (found : candidate? stage simulation.graph = some id) :
      Staged frame body ((Session.start stage simulation).remove id).2.body

/-- Every stage of an elimination has no branches and can be run. -/
theorem Staged.exists_run {stage : Body} (staged : Staged frame body stage)
    (fresh : frame.stack = []) (straight : body.hasBranches = false)
    (ran : Simulation.run frame body = .ok simulation) :
    stage.hasBranches = false ∧ ∃ again, Simulation.run frame stage = .ok again := by
  induction staged with
  | start => exact ⟨straight, simulation, ran⟩
  | remove _ ran found ih =>
    obtain ⟨_, _, _, settled, _, _, _, straightAfter, removed⟩ :=
      exists_remove_candidate fresh ih.1 ran found
    refine ⟨?_, exists_run_of_remove fresh ran (congrArg Prod.fst removed)⟩
    rw [removed]
    exact straightAfter

/-- An elimination from a body that runs has a result. -/
theorem exists_eliminateIn (fresh : frame.stack = []) (limit : Nat)
    (straight : body.hasBranches = false) (ran : Simulation.run frame body = .ok simulation) :
    ∃ result, eliminateIn frame limit body = .ok result := by
  induction limit generalizing body simulation with
  | zero => exact ⟨_, rfl⟩
  | succ limit ih =>
    cases found : candidate? body simulation.graph with
    | none => exact ⟨(body, []), by simp [eliminateIn, ran, found]⟩
    | some id =>
      obtain ⟨_, _, _, settled, _, _, _, straightAfter, removed⟩ :=
        exists_remove_candidate fresh straight ran found
      obtain ⟨again, rerun⟩ := exists_run_of_remove fresh ran (congrArg Prod.fst removed)
      rw [removed] at rerun
      obtain ⟨⟨last, reports⟩, rest⟩ := ih straightAfter rerun
      exact ⟨(last, settled.report :: reports), by simp [eliminateIn, ran, found, removed, rest]⟩

/-- The only fault of an elimination inside a frame is that the body cannot be run. -/
theorem eliminateIn_eq_error_iff (fresh : frame.stack = []) (straight : body.hasBranches = false)
    (limit : Nat) (fault : Fault) :
    eliminateIn frame limit body = .error fault ↔
      1 ≤ limit ∧ Simulation.run frame body = .error fault := by
  cases outcome : Simulation.run frame body with
  | ok simulation =>
    obtain ⟨result, succeeded⟩ := exists_eliminateIn fresh limit straight outcome
    simp [succeeded]
  | error met =>
    cases limit with
    | zero => simp [eliminateIn]
    | succ limit => simp [eliminateIn, outcome]

/-- What an elimination tells of where it ended: nothing, if it removed nothing. -/
def outcome (result : Body × List Report) : Option (Body × List Report) :=
  if result.2 = [] then none else some result

/-- What is told is where the elimination ended. -/
theorem eq_of_outcome_eq_some {result changed : Body × List Report}
    (told : outcome result = some changed) : result = changed := by
  rw [outcome] at told
  split at told
  · cases told
  · exact Option.some.inj told

variable {owner : String} {method : MethodDecl} {limit : Nat}

/-- Elimination from a method without branches takes place in the frame of the method. -/
theorem eliminate_eq (given : method.body = some body) (straight : body.hasBranches = false)
    (framed : Frame.forMethod 0 (some owner) method = .ok frame) :
    eliminate owner method limit = (eliminateIn frame limit body).map outcome := by
  cases limit with
  | zero => simp [eliminate, given, straight, eliminateIn, outcome, Except.map]
  | succ limit =>
    simp only [eliminate, given, straight, framed, Bool.false_eq_true, if_false,
      Nat.add_one_ne_zero]
    rcases eliminateIn frame (limit + 1) body with fault | ⟨last, reports⟩
    · rfl
    · cases reports <;> rfl

/-- Where the elimination in the frame ends, the elimination from the method ends. -/
theorem eliminate_of_eliminateIn {result : Body × List Report} (given : method.body = some body)
    (straight : body.hasBranches = false)
    (framed : Frame.forMethod 0 (some owner) method = .ok frame)
    (inner : eliminateIn frame limit body = .ok result) :
    eliminate owner method limit = .ok (outcome result) := by
  rw [eliminate_eq given straight framed, inner, Except.map]

/-- Elimination from a method without branches fails exactly if it may remove something and the
method cannot be run; and then with that fault. -/
theorem eliminate_eq_error_iff (given : method.body = some body)
    (straight : body.hasBranches = false) (fault : Fault) :
    eliminate owner method limit = .error fault ↔
      1 ≤ limit ∧ Simulation.runMethod (some owner) method = .error fault := by
  cases framed : Frame.forMethod 0 (some owner) method with
  | error met =>
    cases limit with
    | zero => simp [eliminate, given, straight]
    | succ limit => simp [eliminate, given, straight, Simulation.runMethod, framed]
  | ok frame =>
    have inner := eliminateIn_eq_error_iff (Frame.stack_of_forMethod framed) straight limit fault
    rw [eliminate_eq given straight framed, Simulation.runMethod, framed, given]
    dsimp only
    rw [← inner]
    cases eliminateIn frame limit body <;> simp [Except.map]

/-- Elimination fails only where it refuses a body with branches, or where the method as it
was given cannot be run; and then with that fault. Once the body has been run, every stage
can be run, and the candidate of every stage can be removed. -/
theorem eliminate_fails_only_at_once (owner : String) (method : MethodDecl) (limit : Nat) :
    (∀ fault, eliminate owner method limit = .error fault ↔
      ∃ body, method.body = some body ∧
        ((body.hasBranches = true ∧
            fault = .unsupported (.needsStraightLine (method.reference owner))) ∨
          (body.hasBranches = false ∧ 1 ≤ limit ∧
            Simulation.runMethod (some owner) method = .error fault))) ∧
    ∀ frame body simulation stage, Frame.forMethod 0 (some owner) method = .ok frame →
      method.body = some body → body.hasBranches = false →
      Simulation.run frame body = .ok simulation → Staged frame body stage →
      ∃ again, Simulation.run frame stage = .ok again ∧
        ∀ id, candidate? stage again.graph = some id →
          ∃ report, ((Session.start stage again).remove id).1 = .ok report := by
  constructor
  · intro fault
    cases given : method.body with
    | none => simp [eliminate, given]
    | some body =>
      simp only [Option.some.injEq, exists_eq_left']
      cases branches : body.hasBranches with
      | true => simp [eliminate, given, branches, eq_comm]
      | false => simpa using eliminate_eq_error_iff given branches fault
  · intro frame body simulation stage framed _ straight ran staged
    have fresh := Frame.stack_of_forMethod framed
    obtain ⟨stageStraight, again, rerun⟩ := staged.exists_run fresh straight ran
    refine ⟨again, rerun, ?_⟩
    intro id found
    obtain ⟨_, _, _, settled, _, _, _, _, removed⟩ :=
      exists_remove_candidate fresh stageStraight rerun found
    exact ⟨settled.report, congrArg Prod.fst removed⟩

/-- A method that returns half of what it receives, and also stores it. -/
def halve : MethodDecl where
  name := "halve"
  descriptor := ⟨"(I)I", ⟨[.int], some .int⟩, by decide +kernel⟩
  access := 8
  body := some (.ofPlaced 2 [(.load .int 0, 0), (.ldc (.int 2), 1), (.arith .div .int, 3),
    (.dup, 4), (.store .int 1, 5), (.ret (some .int), 6)])

/-- The body of the method runs, and its store is a candidate that can be removed. -/
theorem exists_remove_halve :
    ∃ frame body again report, Frame.forMethod 0 (some "Numbers") halve = .ok frame ∧
      halve.body = some body ∧ Simulation.run frame body = .ok again ∧
      candidate? body again.graph = some 4 ∧
      ((Session.start body again).remove 4).1 = .ok report := by
  have path : ∃ frame body simulation, Frame.forMethod 0 (some "Numbers") halve = .ok frame ∧
      halve.body = some body ∧ body.hasBranches = false ∧
      Simulation.run frame body = .ok simulation ∧
      candidate? body simulation.graph = some 4 := ⟨_, _, _, rfl, rfl, rfl, rfl, rfl⟩
  obtain ⟨frame, body, simulation, framed, given, straight, ran, found⟩ := path
  obtain ⟨again, rerun, removable⟩ := (eliminate_fails_only_at_once "Numbers" halve 3).2 frame body
    simulation body framed given straight ran .start
  obtain rfl : again = simulation := Except.ok.inj (rerun.symm.trans ran)
  obtain ⟨report, removed⟩ := removable 4 found
  exact ⟨frame, body, again, report, framed, given, ran, found, removed⟩

end DeadStore

end ClassTrim
