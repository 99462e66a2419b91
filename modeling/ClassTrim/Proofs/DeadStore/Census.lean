import ClassTrim.Proofs.DeadStore.Behaviour
import ClassTrim.Proofs.Retirement.Guard

/-!
# Counting what an elimination does

A report says which instructions a removal deleted and which ones it inserted, and the
size of the body changes by exactly that. What is inserted discards the value of an
instruction with side effects. Such an instruction is neither a candidate nor swept away
with one, and nothing redirects its value, so what was inserted is still there when the
elimination ends.

Since discarding instructions may come and go, the size of a body need not shrink. The
number of its other instructions does: every removal takes away at least one of them.
-/

namespace ClassTrim

namespace Body

variable {body : Body} {instruction : Instruction}

/-- The number of instructions that do more than to discard a value. -/
def work (body : Body) : Nat :=
  body.instructions.countP (!·.op.isDiscard)

/-- An erasure makes a body one instruction shorter. -/
theorem size_erase (member : instruction ∈ body.instructions) :
    (body.erase instruction.id).size + 1 = body.size := by
  obtain ⟨front, rear, split⟩ := List.append_of_mem member
  simp only [size, instructions_erase split, split, List.length_append, List.length_cons]
  omega

/-- An insertion makes a body one instruction longer. -/
theorem size_splice (member : instruction ∈ body.instructions) (op : Op) :
    (body.splice instruction.id op).size = body.size + 1 := by
  obtain ⟨front, rear, split⟩ := List.append_of_mem member
  simp only [size, instructions_splice split, split, List.length_append, List.length_cons]
  omega

/-- An erasure takes one from the work of a body, unless the instruction only discarded a value. -/
theorem work_erase (member : instruction ∈ body.instructions) :
    (body.erase instruction.id).work + (if instruction.op.isDiscard then 0 else 1) =
      body.work := by
  obtain ⟨front, rear, split⟩ := List.append_of_mem member
  simp only [work, instructions_erase split, split, List.countP_append, List.countP_cons]
  cases discards : instruction.op.isDiscard with
  | true => simp
  | false =>
    simp
    omega

/-- To insert an instruction that discards a value adds no work. -/
theorem work_splice (member : instruction ∈ body.instructions) {op : Op}
    (discards : op.isDiscard = true) : (body.splice instruction.id op).work = body.work := by
  obtain ⟨front, rear, split⟩ := List.append_of_mem member
  simp [work, instructions_splice split, split, List.countP_append, List.countP_cons, discards]

end Body

namespace Session

variable {session next : Session} {waiting later : List ValueId} {instruction : Instruction}
  {place : ContextId} {context : Context}

/-- The report of a session accounts for how its body differs from an earlier one. -/
structure Accounts (session : Session) (first : Body) : Prop where
  size : session.body.size + session.report.removed.length =
    first.size + session.report.inserted.length
  maxLocals : session.body.maxLocals = first.maxLocals
  guarded : ∀ id ∈ session.report.inserted, session.Guards id

/-- Dropping an instruction shortens the body by what is added to the report. -/
theorem Accounts.dropped {first : Body} {graph : Graph} (accounts : session.Accounts first)
    (member : instruction ∈ session.body.instructions)
    (kept : ∀ id, session.Guards id → ((session.withGraph graph).drop instruction).Guards id) :
    ((session.withGraph graph).drop instruction).Accounts first where
  size := by
    have smaller := Body.size_erase member
    have before := accounts.size
    simp only [drop, withGraph, Report.addRemoved, List.length_append, List.length_cons,
      List.length_nil]
    omega
  maxLocals := accounts.maxLocals
  guarded := fun id inserted => kept id (accounts.guarded id inserted)

/-- Every step reports what it changes: a deletion and a collapse drop one instruction, and a
discard inserts one that stays. -/
theorem Accounts.step {first : Body} (accounts : session.Accounts first) (sound : session.Sound)
    (step : Step session waiting next later) : next.Accounts first := by
  have kept : ∀ id, session.Guards id → next.Guards id :=
    fun id guards => guards.step sound step
  cases step with
  | pass => exact accounts
  | delete deletes => exact accounts.dropped deletes.member kept
  | collapse collapses => exact accounts.dropped collapses.member kept
  | @discard producer _ _ released _ discards =>
    have larger := Body.size_splice discards.member (session.taker producer released).op
    have before := accounts.size
    refine ⟨?_, accounts.maxLocals, ?_⟩
    · simp only [discarded, withGraph, Report.addInserted, List.length_append, List.length_cons,
        List.length_nil]
      omega
    · intro id inserted
      rcases List.mem_append.mp inserted with old | new
      · exact kept id (accounts.guarded id old)
      · rw [List.mem_singleton.mp new]
        exact guards_taker sound discards

/-- Any number of steps reports what it changes. -/
theorem Accounts.steps {first : Body} (accounts : session.Accounts first) (sound : session.Sound)
    (steps : Steps session waiting next later) : next.Accounts first := by
  induction steps with
  | done => exact accounts
  | next step _ ih => exact ih (accounts.step sound step) (sound.step step)

/-- Whatever is deleted on account of a value that it pushed does more than to discard. -/
theorem work_drop_lt (hosts : session.Hosts instruction place context) {value : ValueId}
    (pushed : value ∈ context.pushes) (graph : Graph) :
    ((session.withGraph graph).drop instruction).body.work < session.body.work := by
  have fewer := Body.work_erase hosts.member
  rw [hosts.not_isDiscard pushed] at fewer
  exact Nat.lt_of_succ_le (Nat.le_of_eq fewer)

/-- No step adds work, since what is inserted only discards a value. -/
theorem Step.work_le (step : Step session waiting next later) :
    next.body.work ≤ session.body.work := by
  cases step with
  | pass => exact Nat.le_refl _
  | delete deletes pure pushed => exact Nat.le_of_lt (work_drop_lt deletes.toHosts pushed _)
  | collapse collapses =>
    exact Nat.le_of_lt
      (work_drop_lt collapses.toHosts (collapses.bypass.mem_pushes.mpr (.inl rfl)) _)
  | discard discards =>
    exact Nat.le_of_eq (Body.work_splice discards.member (isDiscard_discardOp _))

/-- No number of steps adds work. -/
theorem Steps.work_le (steps : Steps session waiting next later) :
    next.body.work ≤ session.body.work := by
  induction steps with
  | done => exact Nat.le_refl _
  | next step _ ih => exact Nat.le_trans ih step.work_le

/-- Settling a live value that nobody takes deletes its producer, unless that has side
effects. -/
theorem Steps.work_lt {value : ValueId} (steps : Steps session [value] next [])
    (sound : session.Sound) (hosts : session.Hosts instruction place context)
    (pushed : value ∈ context.pushes) (pure : instruction.op.hasSideEffect = false)
    (idle : ∀ other ∈ session.body.instructions, value ∉ session.graph.popsOf other.id) :
    next.body.work < session.body.work := by
  cases steps with
  | next step steps =>
    refine Nat.lt_of_le_of_lt steps.work_le ?_
    cases step with
    | pass settled =>
      have dead := sound.dead_of_not_stranded settled idle
      rw [sound.isLiveValue_of_mem_pushes hosts pushed] at dead
      cases dead
    | delete deletes _ own => exact work_drop_lt deletes.toHosts own _
    | collapse collapses =>
      exact work_drop_lt collapses.toHosts (collapses.bypass.mem_pushes.mpr (.inl rfl)) _
    | discard discards =>
      have own : value ∈ _ := discards.pushes ▸ List.mem_singleton_self value
      have same := sound.id_eq_of_mem_pushes hosts discards.toHosts pushed own
      rw [Body.eq_of_id_eq hosts.member discards.member same, discards.effectful] at pure
      cases pure

/-- A new run of the body finds the same guards. -/
theorem Guards.rerun {id : InstructionId} {frame : Frame} {again : Simulation}
    (guards : session.Guards id) (threaded : session.Threaded []) (sound : session.Sound)
    (fresh : frame.stack = []) (ran : Simulation.run frame session.body = .ok again) :
    (Session.start session.body again).Guards id := by
  obtain ⟨taker, producer, value, rfl, guard⟩ := guards
  have recorded := Simulation.Recorded.run fresh ran
  have pushes := recorded.map_image_pushesOf sound.length_pushesOf producer guard.member
  have pops := (recorded.map_image_popsOf (threaded.threads sound) sound.length_popsOf
    sound.length_pushesOf).1 taker guard.inside
  rw [guard.takes] at pops
  obtain ⟨taken, takes, image⟩ := List.map_eq_singleton_iff.mp pops
  have pushed := guard.pushes
  rw [← pushes] at pushed
  obtain ⟨given, gives, sameImage⟩ := List.mem_map.mp pushed
  -- Distinct values of the run stand for distinct values of the session.
  have same : given = taken := by
    have length := recorded.nextValue_eq sound.length_pushesOf
    have givenBound := (recorded.bounded producer guard.member).2 given gives
    have takenBound := (recorded.bounded taker guard.inside).1 taken (by simp [takes])
    have sameNumber : session.numbering given = session.numbering taken :=
      sameImage.trans image.symm
    rcases Nat.lt_trichotomy given taken with less | same | less
    · exact absurd sameNumber (Nat.ne_of_lt (threaded.numbering_lt less (length ▸ takenBound)))
    · exact same
    · exact absurd sameNumber.symm
        (Nat.ne_of_lt (threaded.numbering_lt less (length ▸ givenBound)))
  exact ⟨taker, producer, given, rfl, guard.inside, guard.member, guard.discards,
    guard.effectful, same ▸ takes, gives⟩

end Session

namespace DeadStore

variable {frame : Frame} {body last : Body} {simulation : Simulation} {id : InstructionId}
  {instruction : Instruction} {reports : List Report}

/-- A value is pointless on account of an instruction without side effects that pushed
it. -/
theorem exists_producer_of_isPointless (fresh : frame.stack = [])
    (ran : Simulation.run frame body = .ok simulation) {value : ValueId}
    (pointless : isPointless body simulation.graph value = true) :
    ∃ producer place context, (Session.start body simulation).Hosts producer place context ∧
      value ∈ context.pushes ∧ producer.op.hasSideEffect = false := by
  have sound := Session.Sound.start fresh ran
  unfold isPointless at pointless
  split at pointless
  · cases pointless
  · next context produced =>
    simp only [Graph.producer?, Option.bind_eq_some_iff] at produced
    obtain ⟨node, present, found⟩ := produced
    obtain ⟨entry, again, pushed, _⟩ := sound.linked.produced present
    obtain rfl : context = entry := Option.some.inj (found.symm.trans again)
    have live := (Simulation.Recorded.run fresh ran).mirrored.alive found
    obtain ⟨producer, member, records⟩ := sound.hosted found live
    refine ⟨producer, node.pushedBy, context, ⟨member, found, live, records⟩, pushed, ?_⟩
    rcases Bool.or_eq_true_iff.mp pointless with copies | pure
    · exact Session.hasSideEffect_of_isDuplication (records.duplication ▸ copies)
    · have present : body.get? context.instruction = some producer :=
        Body.get?_eq_some_iff.mpr ⟨member, records.same.symm⟩
      simpa [present] using pure

/-- What nothing observes is a store, or takes a pointless value. -/
theorem isDead_cases {graph : Graph} (dead : isDead body graph instruction = true) :
    instruction.op.effect = ⟨1, 0⟩ ∧ (instruction.op.isDiscard = false ∨
      ∃ value, (graph.popsOf instruction.id).head? = some value ∧
        isPointless body graph value = true) := by
  cases op : instruction.op with
  | store kind index => exact ⟨rfl, .inl rfl⟩
  | pop | pop2 =>
    simp only [isDead, op] at dead
    obtain ⟨value, first, pointless⟩ := (Option.any_eq_true _ _).mp dead
    exact ⟨rfl, .inr ⟨value, first, pointless⟩⟩
  | _ => simp [isDead, op] at dead

/-- Neither what guards a value nor what it guards is ever a candidate. -/
theorem ne_of_guard (fresh : frame.stack = [])
    (ran : Simulation.run frame body = .ok simulation) {taker producer : Instruction}
    {value : ValueId} (guard : (Session.start body simulation).Guard taker producer value)
    (dead : isDead body simulation.graph instruction = true) :
    taker ≠ instruction ∧ producer ≠ instruction := by
  have sound := Session.Sound.start fresh ran
  obtain ⟨place, context, hosts⟩ := sound.exists_hosts guard.member
  have pushed := guard.pushes
  rw [sound.pushesOf_eq hosts] at pushed
  obtain ⟨effect, kind⟩ := isDead_cases dead
  constructor
  · rintro rfl
    rcases kind with stores | ⟨popped, first, pointless⟩
    · rw [guard.discards] at stores
      cases stores
    · have takes : simulation.graph.popsOf taker.id = [value] := guard.takes
      rw [takes, List.head?_cons, Option.some.injEq] at first
      subst first
      obtain ⟨maker, home, entry, others, again, pure⟩ :=
        exists_producer_of_isPointless fresh ran pointless
      have same := sound.id_eq_of_mem_pushes others hosts again pushed
      rw [Body.eq_of_id_eq others.member hosts.member same, guard.effectful] at pure
      cases pure
  · rintro rfl
    exact hosts.pushes_ne_zero pushed (by rw [effect])

/-- With an instruction that takes a pointless value goes the one that pushed it. -/
theorem work_lt_of_isPointless (fresh : frame.stack = [])
    (ran : Simulation.run frame body = .ok simulation) {place : ContextId} {context : Context}
    (deletes : (Session.start body simulation).Deletes instruction place context)
    (effect : instruction.op.effect = ⟨1, 0⟩) {value : ValueId}
    (first : (simulation.graph.popsOf instruction.id).head? = some value)
    (pointless : isPointless body simulation.graph value = true) {settled : Session}
    (steps : Session.Steps ((Session.start body simulation).deleted instruction place)
      context.pops settled []) :
    settled.body.work < (body.erase instruction.id).work := by
  have sound := Session.Sound.start fresh ran
  have taken : context.pops = [value] := by
    have count := deletes.records.length_pops
    have popped : simulation.graph.popsOf instruction.id = context.pops :=
      sound.popsOf_eq deletes.toHosts
    rw [effect] at count
    obtain ⟨only, pops⟩ := List.length_eq_one_iff.mp count
    rw [popped, pops, List.head?_cons, Option.some.injEq] at first
    rw [pops, first]
  rw [taken] at steps
  obtain ⟨producer, home, entry, hosts, pushed, pure⟩ :=
    exists_producer_of_isPointless fresh ran pointless
  have distinct : producer.id ≠ instruction.id := by
    intro same
    obtain rfl := Body.eq_of_id_eq hosts.member deletes.member same
    exact hosts.pushes_ne_zero pushed (by rw [effect])
  -- The deleted instruction was the only one that took the value.
  have idle : ∀ other ∈
      ((Session.start body simulation).deleted instruction place).body.instructions,
        value ∉ ((Session.start body simulation).deleted instruction place).graph.popsOf
          other.id := by
    intro other member popped
    obtain ⟨apart, _, _, others, _⟩ := sound.stays_deleted deletes member
    rw [sound.popsOf_deleted deletes member, sound.popsOf_eq others] at popped
    exact apart (sound.id_eq_of_mem_pops others deletes.toHosts popped (by simp [taken]))
  exact steps.work_lt (sound.deleted deletes)
    (Session.Sound.hosts_deleted deletes hosts distinct) pushed pure idle

/-- The removal of a candidate is accounted for, leaves fewer instructions that do more
than to discard, and spares every guard. -/
theorem exists_remove_accounts (fresh : frame.stack = []) (straight : body.hasBranches = false)
    (ran : Simulation.run frame body = .ok simulation)
    (found : candidate? body simulation.graph = some id) :
    ∃ settled : Session, (Session.start body simulation).remove id =
        (.ok settled.report, { settled with report := .empty }) ∧
      settled.body.hasBranches = false ∧ settled.Accounts body ∧
      settled.body.work < body.work ∧
      ∀ other, (Session.start body simulation).Guards other → settled.Guards other := by
  obtain ⟨instruction, place, context, settled, deletes, dead, steps, straightAfter, removed⟩ :=
    exists_remove_candidate fresh straight ran found
  have sound := Session.Sound.start fresh ran
  have soundAfter := sound.deleted deletes
  have kept : ∀ other, (Session.start body simulation).Guards other →
      ((Session.start body simulation).deleted instruction place).Guards other := by
    rintro other ⟨taker, producer, value, rfl, guard⟩
    obtain ⟨notTaker, notProducer⟩ := ne_of_guard fresh ran guard dead
    exact ⟨taker, producer, value, rfl, guard.deleted sound deletes notTaker notProducer⟩
  have opening : (Session.start body simulation).Accounts body :=
    ⟨rfl, rfl, by simp [Session.start, Report.empty]⟩
  refine ⟨settled, removed, straightAfter,
    (opening.dropped deletes.member kept).steps soundAfter steps, ?_,
    fun other guards => (kept other guards).steps soundAfter steps⟩
  have fewer : (body.erase instruction.id).work + _ = body.work := Body.work_erase deletes.member
  obtain ⟨effect, kind⟩ := isDead_cases dead
  rcases kind with stores | ⟨value, first, pointless⟩
  · have later : settled.body.work ≤ (body.erase instruction.id).work := steps.work_le
    simp only [stores, Bool.false_eq_true, if_false] at fewer
    omega
  · have less := work_lt_of_isPointless fresh ran deletes effect first pointless steps
    omega

/-- The reports of an elimination account for how the body changed. -/
structure Census (body last : Body) (reports : List Report) : Prop where
  size : last.size + (reports.flatMap Report.removed).length =
    body.size + (reports.flatMap Report.inserted).length
  work : last.work + reports.length ≤ body.work
  maxLocals : last.maxLocals = body.maxLocals
  /-- What was inserted is still there. -/
  inserted : ∀ report ∈ reports, ∀ id ∈ report.inserted, (last.get? id).isSome = true

/-- Without a removal there is nothing to account for. -/
theorem Census.nothing (body : Body) : Census body body [] :=
  ⟨rfl, Nat.le_refl _, rfl, by simp⟩

/-- A removal and those behind it account together for the whole change, if what the first one
inserted is still there at the end. -/
theorem Census.cons {settled : Session} (accounts : settled.Accounts body)
    (less : settled.body.work < body.work) (census : Census settled.body last reports)
    (kept : ∀ id ∈ settled.report.inserted, (last.get? id).isSome = true) :
    Census body last (settled.report :: reports) where
  size := by
    have now := accounts.size
    have later := census.size
    simp only [List.flatMap_cons, List.length_append]
    omega
  work := by
    have later := census.work
    simp only [List.length_cons]
    omega
  maxLocals := census.maxLocals.trans accounts.maxLocals
  inserted := by
    intro report member
    rcases List.mem_cons.mp member with rfl | behind
    · exact kept
    · exact census.inserted report behind

/-- An elimination leaves a method the frame that it had. -/
theorem Census.forMethod_eq {method : MethodDecl} (census : Census body last reports)
    (given : method.body = some body) (id : Nat) (owner : Option String) :
    Frame.forMethod id owner { method with body := some last } =
      Frame.forMethod id owner method := by
  have slots : Frame.slotCount { method with body := some last } = Frame.slotCount method := by
    simp only [Frame.slotCount, given, census.maxLocals]
    rfl
  simp only [Frame.forMethod, slots]
  rfl

/-- A guarded instruction stands in the body. -/
theorem isSome_get?_of_guards {session : Session} (guards : session.Guards id) :
    (session.body.get? id).isSome = true := by
  obtain ⟨taker, _, _, rfl, guard⟩ := guards
  rw [Body.get?_eq_some_iff.mpr ⟨guard.inside, rfl⟩, Option.isSome_some]

/-- An elimination is accounted for, and spares what guarded a value when it began. -/
theorem eliminateIn_census (fresh : frame.stack = []) {limit : Nat}
    (straight : body.hasBranches = false) (ran : Simulation.run frame body = .ok simulation)
    (eliminated : eliminateIn frame limit body = .ok (last, reports)) :
    Census body last reports ∧ ∀ id, (Session.start body simulation).Guards id →
      (last.get? id).isSome = true := by
  induction limit generalizing body simulation reports with
  | zero =>
    cases eliminated
    exact ⟨.nothing _, fun id => isSome_get?_of_guards⟩
  | succ limit ih =>
    cases found : candidate? body simulation.graph with
    | none =>
      simp only [eliminateIn, ran, found, Except.ok.injEq, Prod.mk.injEq] at eliminated
      obtain ⟨rfl, rfl⟩ := eliminated
      exact ⟨.nothing body, fun id => isSome_get?_of_guards⟩
    | some target =>
      obtain ⟨settled, removed, straightAfter, accounts, less, kept⟩ :=
        exists_remove_accounts fresh straight ran found
      obtain ⟨threaded, sound⟩ := (Session.Threaded.start fresh ran).remove
        (Session.Sound.start fresh ran) (congrArg Prod.fst removed)
      rw [removed] at threaded sound
      obtain ⟨again, rerun⟩ := threaded.exists_run sound fresh
      simp only [eliminateIn, ran, found, removed] at eliminated
      cases rest : eliminateIn frame limit settled.body with
      | error fault => simp [rest] at eliminated
      | ok result =>
        obtain ⟨final, others⟩ := result
        simp only [rest, Except.ok.injEq, Prod.mk.injEq] at eliminated
        obtain ⟨rfl, rfl⟩ := eliminated
        obtain ⟨census, spared⟩ := ih straightAfter rerun rest
        have stays : ∀ id, settled.Guards id → (final.get? id).isSome = true := by
          intro id guards
          have carried : ({ settled with report := .empty } : Session).Guards id :=
            guards.congr rfl rfl
          exact spared id (carried.rerun threaded sound fresh rerun)
        exact ⟨.cons accounts less census fun id inserted =>
          stays id (accounts.guarded id inserted), fun id guards => stays id (kept id guards)⟩

/-- What changes a method is an elimination from its body that removed something. -/
theorem eliminateIn_of_eliminate {owner : String} {method : MethodDecl} {limit : Nat}
    (given : method.body = some body) (straight : body.hasBranches = false)
    (eliminated : eliminate owner method limit = .ok (some (last, reports))) :
    ∃ frame, Frame.forMethod 0 (some owner) method = .ok frame ∧
      eliminateIn frame limit body = .ok (last, reports) ∧ reports ≠ [] := by
  simp only [eliminate, given, straight, Bool.false_eq_true, if_false] at eliminated
  split at eliminated
  · cases eliminated
  · split at eliminated
    · cases eliminated
    · next framed =>
      split at eliminated
      · cases eliminated
      · cases eliminated
      · next changed inner =>
        cases eliminated
        exact ⟨_, framed, inner, changed⟩

/-- An elimination that changes a method is accounted for. The body that it is given runs,
and so does the one that it leaves. -/
theorem eliminate_census {owner : String} {method : MethodDecl} {limit : Nat}
    (eliminated : eliminate owner method limit = .ok (some (last, reports))) :
    ∃ frame body simulation again, Frame.forMethod 0 (some owner) method = .ok frame ∧
      method.body = some body ∧ body.hasBranches = false ∧
      Census body last reports ∧ reports ≠ [] ∧
      Simulation.run frame body = .ok simulation ∧ Simulation.run frame last = .ok again := by
  cases given : method.body with
  | none => simp [eliminate, given] at eliminated
  | some body =>
    cases straight : body.hasBranches with
    | true => simp [eliminate, given, straight] at eliminated
    | false =>
      obtain ⟨frame, framed, inner, changed⟩ := eliminateIn_of_eliminate given straight eliminated
      have fresh := Frame.stack_of_forMethod framed
      cases ran : Simulation.run frame body with
      | error fault =>
        cases limit with
        | zero =>
          cases inner
          exact absurd rfl changed
        | succ limit => simp [eliminateIn, ran] at inner
      | ok simulation =>
        obtain ⟨_, again, runs⟩ := (Staged.start.eliminateIn inner).exists_run fresh straight ran
        exact ⟨frame, body, simulation, again, framed, rfl, straight,
          (eliminateIn_census fresh straight ran inner).1, changed, ran, runs⟩

end DeadStore

end ClassTrim
