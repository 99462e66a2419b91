import ClassTrim.Proofs.DeadStore.Census

/-!
# Eliminations run out of work

Every removal of an elimination takes away at least one instruction that does more than to discard
a value, and leaves the body no longer than it was. The first is why an elimination ends. For the
second, what is deleted has to make up for what is inserted: an instruction that is deleted on
account of one value sets free two at most, so at any time the values that wait and the
instructions inserted so far are no more than the instructions deleted.

An elimination that stops before its limit has met a body without candidates. In such a body every
slot that is stored to is also loaded, and whatever is discarded was made by an instruction with
side effects.
-/

namespace ClassTrim

/-- What has no side effects takes two values at most. -/
theorem Op.pops_le_two {op : Op} (pure : op.hasSideEffect = false) : op.effect.pops ≤ 2 := by
  cases op with
  | arith operation kind => cases operation <;> simp [effect, ArithOp.operands]
  | invoke | field | branch | ret => cases pure
  | _ => simp [effect]

namespace Session

variable {session next : Session} {waiting later : List ValueId}

/-- The instructions deleted make up for those inserted and for the values that wait. -/
def Offset (session : Session) (waiting : List ValueId) : Prop :=
  session.report.inserted.length + waiting.length ≤ session.report.removed.length

/-- Every step keeps the balance: a deletion settles one of the waiting values and frees at most
two, and an insertion settles one. -/
theorem Offset.step (offset : session.Offset waiting) (step : Step session waiting next later) :
    next.Offset later := by
  cases step with
  | pass =>
    simp only [Offset, List.length_cons] at offset ⊢
    omega
  | delete deletes pure =>
    have few := Op.pops_le_two pure
    rw [← deletes.records.length_pops] at few
    simp only [Offset, deleted, drop, withGraph, Report.addRemoved, List.length_cons,
      List.length_append, List.length_nil] at offset ⊢
    omega
  | collapse =>
    simp only [Offset, collapsed, drop, withGraph, Report.addRemoved, List.length_cons,
      List.length_append, List.length_nil] at offset ⊢
    omega
  | discard =>
    simp only [Offset, discarded, withGraph, Report.addInserted, List.length_cons,
      List.length_append, List.length_nil] at offset ⊢
    omega

/-- Any number of steps keeps the balance. -/
theorem Offset.steps (offset : session.Offset waiting)
    (steps : Steps session waiting next later) : next.Offset later := by
  apply steps.invariant _ offset
  intro session next waiting later step offset
  exact offset.step step

/-- What an instruction of the body takes was pushed by one. -/
theorem Sound.exists_producer (sound : session.Sound) {instruction : Instruction}
    {place : ContextId} {context : Context} (hosts : session.Hosts instruction place context)
    {value : ValueId} (popped : value ∈ context.pops) :
    ∃ producer home entry, session.Hosts producer home entry ∧ value ∈ entry.pushes ∧
      session.graph.producer? value = some entry := by
  obtain ⟨node, present, alive, _⟩ := sound.linked.popped hosts.found hosts.live popped
  obtain ⟨entry, found, pushed, same⟩ := sound.linked.produced present
  have live : entry.live = true := same ▸ alive
  obtain ⟨producer, member, records⟩ := sound.hosted found live
  exact ⟨producer, node.pushedBy, entry, ⟨member, found, live, records⟩, pushed,
    by simp [Graph.producer?, present, found]⟩

end Session

namespace DeadStore

variable {frame : Frame} {body last : Body} {simulation : Simulation} {id : InstructionId}
  {reports : List Report}

/-- The removals of an elimination, one after the other and each with its report. Every body is
run, and its candidate is removed. That leaves fewer instructions which do more than to discard,
and no more instructions altogether. -/
inductive Trail (frame : Frame) : Body → List Report → Body → Prop
  | done (body : Body) : Trail frame body [] body
  | remove {body last : Body} {simulation : Simulation} {id : InstructionId} {report : Report}
      {session : Session} {reports : List Report}
      (ran : Simulation.run frame body = .ok simulation)
      (found : candidate? body simulation.graph = some id)
      (removed : (Session.start body simulation).remove id = (.ok report, session))
      (lessWork : session.body.work < body.work) (noLonger : session.body.size ≤ body.size)
      (rest : Trail frame session.body reports last) : Trail frame body (report :: reports) last

/-- The removal of a candidate leaves less work and no longer a body. -/
theorem exists_remove_lessens (fresh : frame.stack = []) (straight : body.hasBranches = false)
    (ran : Simulation.run frame body = .ok simulation)
    (found : candidate? body simulation.graph = some id) :
    ∃ settled : Session, (Session.start body simulation).remove id =
        (.ok settled.report, { settled with report := .empty }) ∧
      settled.body.hasBranches = false ∧ settled.body.work < body.work ∧
      settled.body.size ≤ body.size := by
  obtain ⟨settled, removed, straightAfter, accounts, less, _⟩ :=
    exists_remove_accounts fresh straight ran found
  obtain ⟨instruction, place, context, other, deletes, dead, steps, _, again⟩ :=
    exists_remove_candidate fresh straight ran found
  have opening : ((Session.start body simulation).deleted instruction place).Offset
      context.pops := by
    have count := deletes.records.length_pops
    rw [(isDead_cases dead).1] at count
    simp [Session.Offset, Session.deleted, Session.drop, Session.withGraph, Session.start,
      Report.addRemoved, Report.empty, count]
  have offset : other.report.inserted.length ≤ other.report.removed.length := opening.steps steps
  have sameReport : other.report = settled.report :=
    Except.ok.inj (congrArg Prod.fst (again.symm.trans removed))
  rw [sameReport] at offset
  have size := accounts.size
  exact ⟨settled, removed, straightAfter, less, by omega⟩

/-- An elimination follows a trail, and stops before its limit only where no candidate is left. -/
theorem trail_of_eliminateIn (fresh : frame.stack = []) {limit : Nat}
    (straight : body.hasBranches = false)
    (eliminated : eliminateIn frame limit body = .ok (last, reports)) :
    Trail frame body reports last ∧ (reports.length < limit →
      ∃ again, Simulation.run frame last = .ok again ∧ candidate? last again.graph = none) := by
  induction limit generalizing body reports with
  | zero =>
    cases eliminated
    exact ⟨.done _, fun unspent => absurd unspent (Nat.not_lt_zero _)⟩
  | succ limit ih =>
    cases ran : Simulation.run frame body with
    | error fault => simp [eliminateIn, ran] at eliminated
    | ok simulation =>
      cases found : candidate? body simulation.graph with
      | none =>
        simp only [eliminateIn, ran, found, Except.ok.injEq, Prod.mk.injEq] at eliminated
        obtain ⟨rfl, rfl⟩ := eliminated
        exact ⟨.done body, fun _ => ⟨simulation, ran, found⟩⟩
      | some id =>
        obtain ⟨settled, removed, straightAfter, lessWork, noLonger⟩ :=
          exists_remove_lessens fresh straight ran found
        simp only [eliminateIn, ran, found, removed] at eliminated
        cases rest : eliminateIn frame limit settled.body with
        | error fault => simp [rest] at eliminated
        | ok result =>
          obtain ⟨final, others⟩ := result
          simp only [rest, Except.ok.injEq, Prod.mk.injEq] at eliminated
          obtain ⟨rfl, rfl⟩ := eliminated
          obtain ⟨trail, exhausted⟩ := ih straightAfter rest
          exact ⟨.remove ran found removed lessWork noLonger trail,
            fun unspent => exhausted (Nat.lt_of_succ_lt_succ unspent)⟩

/-- Nothing is left that an elimination could remove: every slot that is stored to is loaded
somewhere, and what is discarded comes from instructions with side effects. -/
structure Exhausted (body : Body) (graph : Graph) : Prop where
  stores : ∀ instruction ∈ body.instructions, ∀ kind index,
    instruction.op = .store kind index →
      ∃ loader ∈ body.instructions, ∃ other, loader.op = .load other index
  discards : ∀ instruction ∈ body.instructions, instruction.op.isDiscard = true →
    ∃ value producer, graph.popsOf instruction.id = [value] ∧ producer ∈ body.instructions ∧
      value ∈ graph.pushesOf producer.id ∧ producer.op.isDuplication = false ∧
      producer.op.hasSideEffect = true

/-- The slots that a body reads are those that its loads name. -/
theorem mem_readSlots {index : UInt16} :
    index ∈ readSlots body ↔
      ∃ loader ∈ body.instructions, ∃ kind, loader.op = .load kind index := by
  rw [readSlots, List.mem_filterMap]
  refine exists_congr fun loader => and_congr_right fun _ => ?_
  cases op : loader.op <;> simp [Op.loadedIndex?]

/-- What is discarded in vain has a producer that can go with it. -/
theorem isPointless_eq {producer : Instruction} {entry : Context} {home : ContextId}
    {session : Session} {value : ValueId} (hosts : session.Hosts producer home entry)
    (produced : session.graph.producer? value = some entry) :
    isPointless session.body session.graph value =
      (producer.op.isDuplication || !producer.op.hasSideEffect) := by
  have present : session.body.get? entry.instruction = some producer :=
    Body.get?_eq_some_iff.mpr ⟨hosts.member, hosts.records.same.symm⟩
  simp [isPointless, produced, hosts.records.duplication, present]

/-- A body without candidates is exhausted. -/
theorem exhausted_of_candidate? (fresh : frame.stack = [])
    (ran : Simulation.run frame body = .ok simulation)
    (nothing : candidate? body simulation.graph = none) : Exhausted body simulation.graph := by
  have sound := Session.Sound.start fresh ran
  have observed : ∀ instruction ∈ body.instructions,
      isDead body simulation.graph instruction = false := by
    intro instruction member
    have missed := List.find?_eq_none.mp (Option.map_eq_none_iff.mp nothing) instruction member
    exact Bool.eq_false_iff.mpr missed
  constructor
  · intro instruction member kind index stores
    have alive := observed instruction member
    rw [isDead, stores] at alive
    exact mem_readSlots.mp (by simpa using alive)
  · intro instruction member discards
    obtain ⟨place, context, hosts⟩ := sound.exists_hosts member
    have count := hosts.records.length_pops
    rw [Op.effect_of_isDiscard discards] at count
    obtain ⟨value, popped⟩ := List.length_eq_one_iff.mp count
    have takes : simulation.graph.popsOf instruction.id = [value] :=
      (sound.popsOf_eq hosts).trans popped
    obtain ⟨producer, home, entry, makes, pushed, produced⟩ :=
      sound.exists_producer hosts (popped ▸ List.mem_singleton_self value)
    have needed : isPointless body simulation.graph value = false := by
      have alive := observed instruction member
      cases op : instruction.op with
      | pop | pop2 => simpa [isDead, op, takes] using alive
      | _ => simp [op, Op.isDiscard] at discards
    have pure : (producer.op.isDuplication || !producer.op.hasSideEffect) = false :=
      (isPointless_eq makes produced).symm.trans needed
    obtain ⟨single, effectful⟩ := Bool.or_eq_false_iff.mp pure
    exact ⟨value, producer, takes, makes.member, (sound.pushesOf_eq makes).symm ▸ pushed, single,
      by simpa using effectful⟩

/-- Elimination exhausts its candidates. Of a method without branches that can be run, it makes a
body by removals each of which leaves fewer instructions that do more than to discard a value, and
no more instructions altogether; so there are at most as many removals as the given body has such
instructions. Where there are fewer removals than the limit allows, a new run of what is left finds
no candidate. -/
theorem eliminate_exhausts (owner : String) (method : MethodDecl) (limit : Nat)
    (given : method.body = some body) (straight : body.hasBranches = false)
    (ran : Simulation.runMethod (some owner) method = .ok simulation) :
    ∃ frame outcome last reports, Frame.forMethod 0 (some owner) method = .ok frame ∧
      eliminate owner method limit = .ok outcome ∧
      outcome.getD (body, []) = (last, reports) ∧ Trail frame body reports last ∧
      reports.length ≤ body.work ∧
      (reports.length < limit → ∃ again,
        Simulation.runMethod (some owner) { method with body := some last } = .ok again ∧
          candidate? last again.graph = none ∧ Exhausted last again.graph) := by
  obtain ⟨frame, framed, ran⟩ := (Simulation.runMethod_eq_ok given).mp ran
  have fresh := Frame.stack_of_forMethod framed
  obtain ⟨⟨last, reports⟩, inner⟩ := exists_eliminateIn fresh limit straight ran
  obtain ⟨trail, exhausted⟩ := trail_of_eliminateIn fresh straight inner
  have census := (eliminateIn_census fresh straight ran inner).1
  have made : (outcome (last, reports)).getD (body, []) = (last, reports) := by
    cases reports with
    | nil =>
      cases trail
      rfl
    | cons report reports => rfl
  have bound := census.work
  refine ⟨frame, _, last, reports, framed,
    eliminate_of_eliminateIn given straight framed inner, made, trail, by omega, ?_⟩
  intro unspent
  obtain ⟨again, rerun, nothing⟩ := exhausted unspent
  refine ⟨again, ?_, nothing, exhausted_of_candidate? fresh rerun nothing⟩
  exact (Simulation.runMethod_eq_ok rfl).mpr
    ⟨frame, (census.forMethod_eq given 0 (some owner)).trans framed, rerun⟩

/-- A method that stores a sum of which one part is a quotient, and does not use it. -/
def wasteful : MethodDecl :=
  { halve with
    name := "wasteful"
    body := some (.ofPlaced 2 [(.load .int 0, 0), (.ldc (.int 2), 1), (.arith .div .int, 3),
      (.ldc (.int 1), 4), (.arith .add .int, 5), (.store .int 1, 6), (.load .int 0, 7),
      (.ret (some .int), 8)]) }

/-- The sum goes with the store, and the quotient is discarded. That leaves nothing to remove,
though two more removals would be allowed. -/
theorem eliminate_exhausts_wasteful :
    ∃ last report again, eliminate "Numbers" wasteful 3 = .ok (some (last, [report])) ∧
      last.instructions.map Instruction.op = [.load .int 0, .ldc (.int 2), .arith .div .int, .pop,
        .load .int 0, .ret (some .int)] ∧
      Simulation.runMethod (some "Numbers") { wasteful with body := some last } = .ok again ∧
      candidate? last again.graph = none ∧ Exhausted last again.graph := by
  have path : ∃ body simulation, wasteful.body = some body ∧ body.hasBranches = false ∧
      Simulation.runMethod (some "Numbers") wasteful = .ok simulation := ⟨_, _, rfl, rfl, rfl⟩
  have left : (eliminate "Numbers" wasteful 3).map (Option.map fun pair =>
      (pair.1.instructions.map Instruction.op, pair.2.length)) =
      .ok (some ([.load .int 0, .ldc (.int 2), .arith .div .int, .pop, .load .int 0,
        .ret (some .int)], 1)) := by cbv
  obtain ⟨body, simulation, given, straight, ran⟩ := path
  obtain ⟨_, outcome, last, reports, _, eliminated, made, _, _, exhausted⟩ :=
    eliminate_exhausts "Numbers" wasteful 3 given straight ran
  rw [eliminated] at left
  obtain ⟨pair, rfl, kept⟩ := Option.map_eq_some_iff.mp (Except.ok.inj left)
  obtain rfl : pair = (last, reports) := made
  obtain ⟨ops, count⟩ := Prod.mk.inj kept
  obtain ⟨report, rfl⟩ := List.length_eq_one_iff.mp count
  obtain ⟨again, rerun, nothing, bare⟩ := exhausted (by simp)
  exact ⟨last, report, again, eliminated, ops, rerun, nothing, bare⟩

end DeadStore

end ClassTrim
