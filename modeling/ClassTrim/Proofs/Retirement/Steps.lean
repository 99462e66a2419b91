import ClassTrim.Proofs.Retirement.Sound

/-!
# The steps of a removal

Settling a list of waiting values is a sequence of steps, each of which deals with the
first value: it passes over a value that is not stranded, or makes one of the three
edits. This module says once what a step does and shows that a removal is made of such
steps, so every fact about removals is proved by looking at one step at a time.

In a sound session a step can meet one fault only: the instruction to retire is one that
a branch leads to.
-/

namespace ClassTrim

/-- Only a duplication pushes more than one value. -/
theorem Op.pushes_le_one {op : Op} (plain : op.isDuplication = false) : op.effect.pushes ≤ 1 := by
  cases op with
  | field access target => cases access <;> simp [Op.effect]
  | ret kind => cases kind <;> simp [Op.effect]
  | invoke kind target =>
    simp only [Op.effect]
    split <;> simp
  | dup | dup2 => cases plain
  | _ => simp [Op.effect]

/-- A duplication takes one value and makes two. -/
theorem Op.effect_of_isDuplication {op : Op} (copies : op.isDuplication = true) :
    op.effect = ⟨1, 2⟩ := by
  cases op <;> simp_all [Op.isDuplication, Op.effect]

/-- A stranded value is one of the graph. -/
theorem Graph.lt_size_of_stranded {graph : Graph} {value : ValueId} {id : InstructionId}
    (stranded : graph.stranded? value = some id) : value < graph.values.size := by
  cases found : graph.value? value with
  | none => simp [Graph.stranded?, Graph.producer?, found] at stranded
  | some node => exact (Array.getElem?_eq_some_iff.mp found).1

namespace Session

/-- One step of settling: what is done about the first waiting value, and what waits
afterwards. -/
inductive Step : Session → List ValueId → Session → List ValueId → Prop
  | pass {session : Session} {value : ValueId} {rest : List ValueId}
      (settled : session.graph.stranded? value = none) : Step session (value :: rest) session rest
  | delete {session : Session} {instruction : Instruction} {id : ContextId} {context : Context}
      {value : ValueId} {rest : List ValueId} (deletes : session.Deletes instruction id context)
      (pure : instruction.op.hasSideEffect = false) (pushed : value ∈ context.pushes) :
      Step session (value :: rest) (session.deleted instruction id) (context.pops ++ rest)
  | collapse {session : Session} {duplication : Instruction} {id : ContextId} {context : Context}
      {source released survivor : ValueId} {taker : ContextId} {rewired : Graph}
      {rest : List ValueId}
      (collapses :
        session.Collapses duplication id context source released survivor taker rewired) :
      Step session (released :: rest) (session.collapsed duplication id rewired) rest
  | discard {session : Session} {producer : Instruction} {id : ContextId} {context : Context}
      {released : ValueId} {rest : List ValueId}
      (discards : session.Discards producer id context released) :
      Step session (released :: rest) (session.discarded producer released) rest

/-- An instruction that a step would have to retire on account of what it pushed, and that no step
retires: a branch leads to it. -/
structure Bars (session : Session) (host : Instruction) (id : ContextId) (context : Context) :
    Prop extends session.Hosts host id context where
  pushed : context.pushes ≠ []
  aimed : session.isTarget host = true

/-- Any number of steps. -/
inductive Steps : Session → List ValueId → Session → List ValueId → Prop
  | done (session : Session) (waiting : List ValueId) : Steps session waiting session waiting
  | next {session middle last : Session} {waiting between later : List ValueId}
      (step : Step session waiting middle between) (steps : Steps middle between last later) :
      Steps session waiting last later

/-- What one step keeps, any number of steps keeps. -/
theorem Steps.invariant {holds : Session → List ValueId → Prop} {session last : Session}
    {waiting later : List ValueId} (steps : Steps session waiting last later)
    (kept : ∀ {session next : Session} {waiting later : List ValueId},
      Step session waiting next later → holds session waiting → holds next later)
    (initially : holds session waiting) : holds last later := by
  induction steps with
  | done => exact initially
  | next step _ ih => exact ih (kept step initially)

/-- A step keeps a session sound. -/
theorem Sound.step {session next : Session} {waiting later : List ValueId} (sound : session.Sound)
    (step : Step session waiting next later) : next.Sound := by
  cases step with
  | pass => exact sound
  | delete deletes => exact sound.deleted deletes
  | collapse collapses => exact sound.collapsed collapses
  | discard discards => exact sound.discarded discards

/-- Branches lead where they led when the session began. -/
theorem Step.targets_eq {session next : Session} {waiting later : List ValueId}
    (step : Step session waiting next later) : next.targets = session.targets := by
  cases step <;> rfl

/-- Any number of steps keep a session sound. -/
theorem Sound.steps {session last : Session} {waiting later : List ValueId}
    (sound : session.Sound) (steps : Steps session waiting last later) : last.Sound := by
  apply steps.invariant _ sound
  intro session next waiting later step sound
  exact sound.step step

/-- No sequence of steps changes where branches lead. -/
theorem Steps.targets_eq {session last : Session} {waiting later : List ValueId}
    (steps : Steps session waiting last later) : last.targets = session.targets := by
  induction steps with
  | done => rfl
  | next step _ ih => rw [ih, step.targets_eq]

variable {session : Session} {instruction : Instruction} {id : ContextId} {context : Context}

/-- Deletion in a sound session: an instruction of the body has one context, which is
live. -/
theorem delete_eq (sound : session.Sound) (hosts : session.Hosts instruction id context) :
    session.delete instruction.id =
      if session.isTarget instruction then
        (.error (.branchTarget instruction.mnemonic instruction.pc), session)
      else if 0 < session.graph.takerCount instruction.id then
        (.error (.illegalRemoval instruction.mnemonic instruction.pc
          (session.graph.takerCount instruction.id)), session)
      else (.ok context.pops, session.deleted instruction id) := by
  have present := Body.get?_eq_some_iff.mpr ⟨hosts.member, rfl⟩
  have contexts : session.graph.liveContextsOf instruction.id = [id] := by
    rw [← hosts.records.same]
    exact Graph.liveContextsOf_eq sound.single hosts.found hosts.live
  simp only [delete, present, contexts]
  split
  · rfl
  · split
    · rfl
    · simp [Graph.popsIn_eq hosts.found, deleted]

/-- An instruction that nobody depends on, and that no branch leads to, is deleted. -/
theorem delete_of_deletes (sound : session.Sound)
    (deletes : session.Deletes instruction id context)
    (unaimed : session.isTarget instruction = false) :
    session.delete instruction.id = (.ok context.pops, session.deleted instruction id) := by
  have untaken : session.graph.takerCount instruction.id = 0 := by
    rw [← deletes.records.same]
    exact (Graph.takerCount_eq_zero_iff sound.single deletes.found deletes.live).mpr
      deletes.untaken
  rw [delete_eq sound deletes.toHosts, unaimed, untaken]
  simp

/-- A stranded value was pushed by an instruction of the body. -/
theorem exists_hosts_of_stranded (sound : session.Sound) {value : ValueId}
    {producer : InstructionId} (stranded : session.graph.stranded? value = some producer) :
    ∃ instruction id context, session.Hosts instruction id context ∧ instruction.id = producer ∧
      value ∈ context.pushes ∧ session.graph.liveConsumers value = [] := by
  unfold Graph.stranded? at stranded
  split at stranded
  · cases stranded
  · next untaken =>
    split at stranded
    · cases stranded
    · next context found =>
      split at stranded
      · next source =>
        simp only [Graph.producer?, Option.bind_eq_some_iff] at found
        obtain ⟨node, present, entered⟩ := found
        simp only [Context.isSource, Bool.and_eq_true] at source
        obtain ⟨instruction, member, records⟩ := sound.hosted entered source.1
        obtain ⟨entry, again, pushed, _⟩ := sound.linked.produced present
        rw [entered, Option.some.injEq] at again
        subst again
        refine ⟨instruction, node.pushedBy, context, ⟨member, entered, source.1, records⟩,
          ?_, pushed, by simpa [Graph.hasLiveConsumers] using untaken⟩
        exact records.same.symm.trans (Option.some.inj stranded)
      · cases stranded

/-- A duplication knows the value that it copied and the copy that is not asked for. -/
theorem exists_copies (sound : session.Sound) (hosts : session.Hosts instruction id context)
    (copies : instruction.op.isDuplication = true) {released : ValueId}
    (pushed : released ∈ context.pushes) :
    ∃ source survivor, context.pops = [source] ∧
      (context.pushes = [released, survivor] ∨ context.pushes = [survivor, released]) ∧
      session.graph.copies instruction released = .ok (id, source, survivor) := by
  have popCount := hosts.records.length_pops
  have pushCount := hosts.records.length_pushes
  rw [Op.effect_of_isDuplication copies] at popCount pushCount
  obtain ⟨source, pops⟩ := List.length_eq_one_iff.mp popCount
  obtain ⟨first, second, pushes⟩ : ∃ first second, context.pushes = [first, second] := by
    match context.pushes, pushCount with
    | [first, second], _ => exact ⟨first, second, rfl⟩
  obtain ⟨node, present, producer⟩ := sound.linked.pushed hosts.found pushed
  have own : session.graph.ownContext instruction released = .ok (id, context) := by
    simp [Graph.ownContext, present, producer, hosts.found, hosts.records.same, pushed]
  have copied : session.graph.copied instruction released = .ok source := by
    simp [Graph.copied, own, pops]
  have whole : ∀ survivor, session.graph.otherCopy instruction released = .ok survivor →
      session.graph.copies instruction released = .ok (id, source, survivor) := by
    intro survivor other
    simp [Graph.copies, own, copied, other, bind, Except.bind, pure, Except.pure]
  refine ⟨source, if released = first then second else first, pops, ?_, ?_⟩
  · rw [pushes, List.mem_cons, List.mem_singleton] at pushed
    rcases pushed with isFirst | isSecond
    · exact .inl (by simp [pushes, isFirst])
    · by_cases isFirst : released = first
      · exact .inl (by simp [pushes, isFirst])
      · refine .inr ?_
        rw [if_neg isFirst, pushes, isSecond]
  · apply whole
    rw [pushes, List.mem_cons, List.mem_singleton] at pushed
    simp only [Graph.otherCopy, own, pushes]
    by_cases isFirst : released = first
    · rw [if_pos isFirst, if_pos isFirst]
    · have isSecond : released = second := pushed.resolve_left isFirst
      rw [if_neg isFirst, if_neg isFirst, if_pos isSecond]

/-- What becomes of a duplication of which one copy is idle. -/
theorem collapse_cases (sound : session.Sound) (hosts : session.Hosts instruction id context)
    (copies : instruction.op.isDuplication = true) {released : ValueId}
    (pushed : released ∈ context.pushes) (idle : session.graph.liveConsumers released = []) :
    (session.Deletes instruction id context ∧
      session.collapse instruction released = (.ok .delete, session)) ∨
    (session.isTarget instruction = true ∧ session.collapse instruction released =
      (.error (.branchTarget instruction.mnemonic instruction.pc), session)) ∨
    ∃ source survivor taker rewired,
      session.Collapses instruction id context source released survivor taker rewired ∧
        session.collapse instruction released =
          (.ok .handled, session.collapsed instruction id rewired) := by
  obtain ⟨source, survivor, pops, pushes, known⟩ := exists_copies sound hosts copies pushed
  have mem_pushes : ∀ value, value ∈ context.pushes ↔ value = released ∨ value = survivor := by
    intro value
    rcases pushes with first | second
    · simp [first]
    · simp [second, or_comm]
  by_cases untaken : session.graph.liveConsumers survivor = []
  · refine .inl ⟨⟨hosts, ?_⟩, by simp [collapse, known, Graph.hasLiveConsumers, untaken]⟩
    intro value member
    rcases (mem_pushes value).mp member with rfl | rfl
    · exact idle
    · exact untaken
  · obtain ⟨taker, rest, takers⟩ := List.exists_cons_of_ne_nil untaken
    have single : rest = [] := by
      have short := sound.linked.length_liveConsumers_le survivor
      rw [takers] at short
      simpa using short
    subst single
    have bypass : session.graph.Bypass id context source released survivor taker :=
      ⟨hosts.found, hosts.live, pops, pushes, idle, takers⟩
    by_cases aimed : session.isTarget instruction = true
    · refine .inr (.inl ⟨aimed, ?_⟩)
      simp [collapse, known, Graph.hasLiveConsumers, takers, aimed]
    · obtain ⟨rewired, done⟩ := bypass.exists_substitute sound.linked
      refine .inr (.inr ⟨source, survivor, taker, rewired, ⟨hosts, copies, bypass, done⟩, ?_⟩)
      simp [collapse, known, Graph.hasLiveConsumers, takers, aimed, Graph.rewire, done, collapsed]

/-- A producer that stays gets an instruction behind it that takes its value. If there is no such
value, the work breaks off before the insertion is reported. -/
theorem discard_eq (member : instruction ∈ session.body.instructions) (released : ValueId) :
    session.discard instruction released =
      if released < session.graph.values.size then
        (.ok .handled, session.discarded instruction released)
      else (.error (.outOfRange released session.graph.values.size),
        { session.discarded instruction released with report := session.report }) := by
  have present := Body.get?_eq_some_iff.mpr ⟨member, rfl⟩
  simp only [discard, Body.insertAfter, present]
  rfl

/-- An operation without side effects may be deleted, one that is a duplication too. -/
theorem hasSideEffect_of_isDuplication {op : Op} (copies : op.isDuplication = true) :
    op.hasSideEffect = false := by
  cases op <;> simp_all [Op.isDuplication, Op.hasSideEffect]

/-- What becomes of the producer of a stranded value. -/
theorem prepare_cases (sound : session.Sound) {value : ValueId} {producer : InstructionId}
    (stranded : session.graph.stranded? value = some producer) :
    ∃ instruction id context, session.Hosts instruction id context ∧ instruction.id = producer ∧
      value ∈ context.pushes ∧
      ((session.Deletes instruction id context ∧ instruction.op.hasSideEffect = false ∧
          session.prepare producer value = (.ok .delete, session)) ∨
        (session.isTarget instruction = true ∧ session.prepare producer value =
          (.error (.branchTarget instruction.mnemonic instruction.pc), session)) ∨
        ∃ next, (∀ rest, Step session (value :: rest) next rest) ∧
          session.prepare producer value = (.ok .handled, next)) := by
  obtain ⟨instruction, id, context, hosts, rfl, pushed, idle⟩ :=
    exists_hosts_of_stranded sound stranded
  have present := Body.get?_eq_some_iff.mpr ⟨hosts.member, rfl⟩
  refine ⟨instruction, id, context, hosts, rfl, pushed, ?_⟩
  simp only [prepare, present]
  by_cases copies : instruction.op.isDuplication = true
  · rw [if_pos copies]
    rcases collapse_cases sound hosts copies pushed idle with
      ⟨deletes, result⟩ | ⟨aimed, result⟩ | ⟨source, survivor, taker, rewired, collapses, result⟩
    · exact .inl ⟨deletes, hasSideEffect_of_isDuplication copies, result⟩
    · exact .inr (.inl ⟨aimed, result⟩)
    · exact .inr (.inr ⟨_, fun rest => .collapse collapses, result⟩)
  · rw [if_neg copies]
    have short := Op.pushes_le_one (Bool.eq_false_iff.mpr copies)
    rw [← hosts.records.length_pushes] at short
    have pushes : context.pushes = [value] := by
      obtain ⟨head, rest, shape⟩ := List.exists_cons_of_ne_nil (List.ne_nil_of_mem pushed)
      rw [shape, List.length_cons] at short
      have noRest : rest = [] := List.eq_nil_of_length_eq_zero (by omega)
      rw [shape, noRest, List.mem_singleton] at pushed
      rw [shape, noRest, pushed]
    by_cases effectful : instruction.op.hasSideEffect = true
    · rw [if_pos effectful]
      have discards : session.discard instruction value =
          (.ok .handled, session.discarded instruction value) := by
        rw [discard_eq hosts.member, if_pos (Graph.lt_size_of_stranded stranded)]
      exact .inr (.inr ⟨_, fun rest => .discard ⟨hosts, effectful, pushes, idle⟩, discards⟩)
    · rw [if_neg effectful]
      refine .inl ⟨⟨hosts, ?_⟩, Bool.eq_false_iff.mpr effectful, rfl⟩
      intro other member
      rw [pushes, List.mem_singleton] at member
      rw [member, idle]

/-- Settling the first of the waiting values, without the facts that termination needs. -/
theorem settle_cons (session : Session) (value : ValueId) (rest : List ValueId) :
    session.settle (value :: rest) =
      match session.graph.stranded? value with
      | none => session.settle rest
      | some producer =>
        match session.prepare producer value with
        | (.error fault, failed) => (.error fault, failed)
        | (.ok .handled, next) => next.settle rest
        | (.ok .delete, _) =>
          match session.delete producer with
          | (.error fault, failed) => (.error fault, failed)
          | (.ok freed, next) => next.settle (freed ++ rest) := by
  rw [settle]
  split
  · next found => rw [found]
  · next producer found =>
    split
    · next prepared => simp only [found, prepared]
    · next prepared => simp only [found, prepared]
    · next prepared =>
      split
      · next deleted => simp only [found, prepared, deleted]
      · next deleted => simp only [found, prepared, deleted]

/-- Settling is made of steps. It deals with every value, or stops at an instruction that
a branch leads to. -/
theorem settle_steps (sound : session.Sound) (waiting : List ValueId) :
    ∃ later, Steps session waiting (session.settle waiting).2 later ∧
      (((session.settle waiting).1 = .ok () ∧ later = []) ∨
        ∃ host place context, (session.settle waiting).2.Bars host place context ∧
          (session.settle waiting).1 = .error (.branchTarget host.mnemonic host.pc)) := by
  induction session, waiting using settle.induct with
  | case1 session =>
    refine ⟨[], ?_, .inl ?_⟩
    · rw [settle]
      exact .done session []
    · simp [settle]
  | case2 session value rest settled ih =>
    obtain ⟨later, steps, result⟩ := ih sound
    rw [settle_cons, settled]
    exact ⟨later, .next (.pass settled) steps, result⟩
  | case3 session value rest producer stranded fault failed prepared =>
    obtain ⟨instruction, id, context, hosts, _, pushed, outcome⟩ := prepare_cases sound stranded
    rw [settle_cons, stranded]
    simp only [prepared] at outcome ⊢
    rcases outcome with ⟨_, _, impossible⟩ | ⟨aimed, same⟩ | ⟨next, _, impossible⟩
    · cases impossible
    · cases same
      exact ⟨value :: rest, .done _ _, .inr ⟨instruction, id, context,
        ⟨hosts, List.ne_nil_of_mem pushed, aimed⟩, rfl⟩⟩
    · cases impossible
  | case4 session value rest producer stranded next prepared bound ih =>
    obtain ⟨instruction, id, context, hosts, _, _, outcome⟩ := prepare_cases sound stranded
    rw [settle_cons, stranded]
    simp only [prepared] at outcome ⊢
    rcases outcome with ⟨_, _, impossible⟩ | ⟨_, impossible⟩ | ⟨after, step, same⟩
    · cases impossible
    · cases impossible
    · cases same
      obtain ⟨later, steps, result⟩ := ih (sound.step (step rest))
      exact ⟨later, .next (step rest) steps, result⟩
  | case5 session value rest producer stranded unchanged prepared fault failed deleted =>
    obtain ⟨instruction, id, context, hosts, rfl, pushed, outcome⟩ := prepare_cases sound stranded
    rw [settle_cons, stranded]
    simp only [prepared, deleted] at outcome ⊢
    rcases outcome with ⟨deletes, _, _⟩ | ⟨_, impossible⟩ | ⟨after, step, impossible⟩
    · by_cases aimed : session.isTarget instruction = true
      · rw [delete_eq sound hosts, if_pos aimed] at deleted
        cases deleted
        exact ⟨value :: rest, .done _ _, .inr ⟨instruction, id, context,
          ⟨hosts, List.ne_nil_of_mem pushed, aimed⟩, rfl⟩⟩
      · rw [delete_of_deletes sound deletes (Bool.eq_false_iff.mpr aimed)] at deleted
        cases deleted
    · cases impossible
    · cases impossible
  | case6 session value rest producer stranded unchanged prepared freed next deleted bound ih =>
    obtain ⟨instruction, id, context, hosts, rfl, pushed, outcome⟩ := prepare_cases sound stranded
    rw [settle_cons, stranded]
    simp only [prepared, deleted] at outcome ⊢
    rcases outcome with ⟨deletes, pure, _⟩ | ⟨_, impossible⟩ | ⟨after, step, impossible⟩
    · have unaimed : session.isTarget instruction = false := by
        apply Bool.eq_false_iff.mpr
        intro aimed
        rw [delete_eq sound hosts, if_pos aimed] at deleted
        cases deleted
      rw [delete_of_deletes sound deletes unaimed] at deleted
      cases deleted
      obtain ⟨later, steps, result⟩ := ih (sound.deleted deletes)
      exact ⟨later, .next (.delete deletes pure pushed) steps, result⟩
    · cases impossible
    · cases impossible

/-- A removal that gets past its first deletion is made of steps. It succeeds once nothing
waits any more; otherwise it stopped at an instruction that a branch leads to. -/
theorem remove_of_deletes (sound : session.Sound)
    (deletes : session.Deletes instruction id context)
    (unaimed : session.isTarget instruction = false) :
    ∃ settled later, Steps (session.deleted instruction id) context.pops settled later ∧
      ((later = [] ∧ session.remove instruction.id =
          (.ok settled.report, { settled with report := .empty })) ∨
        ∃ host place entry, settled.Bars host place entry ∧
          session.remove instruction.id =
            (.error (.branchTarget host.mnemonic host.pc), settled)) := by
  have first := delete_of_deletes sound deletes unaimed
  obtain ⟨later, steps, outcome⟩ := settle_steps (sound.deleted deletes) context.pops
  simp only [remove, first]
  cases result : (session.deleted instruction id).settle context.pops with
  | mk verdict settled =>
    rw [result] at steps outcome
    refine ⟨settled, later, steps, ?_⟩
    rcases outcome with ⟨succeeded, nothing⟩ | ⟨host, place, entry, bars, failed⟩
    · dsimp only at succeeded
      subst succeeded
      exact .inl ⟨nothing, rfl⟩
    · dsimp only at failed
      subst failed
      exact .inr ⟨host, place, entry, bars, rfl⟩

/-- The reasons for which a removal is refused before it changes anything. -/
inductive Refuses (session : Session) (target : InstructionId) : Fault → Prop
  | missing (absent : session.body.get? target = none) :
      Refuses session target (.instructionNotFound target)
  | aimed {instruction : Instruction} (present : session.body.get? target = some instruction)
      (aimed : session.isTarget instruction = true) :
      Refuses session target (.branchTarget instruction.mnemonic instruction.pc)
  | taken {instruction : Instruction} (present : session.body.get? target = some instruction)
      (taken : 0 < session.graph.takerCount target) :
      Refuses session target (.illegalRemoval instruction.mnemonic instruction.pc
        (session.graph.takerCount target))

/-- A removal is refused and changes nothing, or it is made of a deletion and of steps. Then it
succeeds, or it stops at an instruction that a branch leads to. -/
theorem remove_cases (sound : session.Sound) (target : InstructionId) :
    (∃ fault, session.Refuses target fault ∧ session.remove target = (.error fault, session)) ∨
      ∃ instruction id context settled later, instruction.id = target ∧
        session.Deletes instruction id context ∧
        Steps (session.deleted instruction id) context.pops settled later ∧
        ((later = [] ∧ session.remove target =
            (.ok settled.report, { settled with report := .empty })) ∨
          ∃ host place entry, settled.Bars host place entry ∧
            session.remove target =
              (.error (.branchTarget host.mnemonic host.pc), settled)) := by
  cases present : session.body.get? target with
  | none => exact .inl ⟨_, .missing present, by simp [remove, delete, present]⟩
  | some instruction =>
    obtain ⟨member, rfl⟩ := Body.get?_eq_some_iff.mp present
    obtain ⟨id, context, hosts⟩ := sound.exists_hosts member
    have deletion := delete_eq sound hosts
    by_cases aimed : session.isTarget instruction = true
    · rw [if_pos aimed] at deletion
      exact .inl ⟨_, .aimed present aimed, by rw [remove, deletion]⟩
    · rw [if_neg aimed] at deletion
      by_cases taken : 0 < session.graph.takerCount instruction.id
      · rw [if_pos taken] at deletion
        exact .inl ⟨_, .taken present taken, by rw [remove, deletion]⟩
      · have untaken : session.graph.takerCount context.instruction = 0 := by
          rw [hosts.records.same]
          exact Nat.eq_zero_of_not_pos taken
        have deletes : session.Deletes instruction id context :=
          ⟨hosts, (Graph.takerCount_eq_zero_iff sound.single hosts.found hosts.live).mp untaken⟩
        obtain ⟨settled, later, steps, outcome⟩ :=
          remove_of_deletes sound deletes (Bool.eq_false_iff.mpr aimed)
        exact .inr ⟨instruction, id, context, settled, later, rfl, deletes, steps, outcome⟩

/-- What the deletion and every step keep, a removal keeps, whether it succeeds or fails. -/
theorem remove_invariant {motive : Session → Prop} (sound : session.Sound) (target : InstructionId)
    (initially : motive session)
    (deleted : ∀ {instruction id context}, session.Deletes instruction id context →
      motive (session.deleted instruction id))
    (kept : ∀ {session next : Session} {waiting later : List ValueId},
      Step session waiting next later → motive session → motive next)
    (reported : ∀ {session : Session}, motive session → motive { session with report := .empty }) :
    motive (session.remove target).2 := by
  rcases remove_cases sound target with
    ⟨_, _, refused⟩ | ⟨instruction, id, context, settled, later, _, deletes, steps, outcome⟩
  · rw [refused]
    exact initially
  · have after : motive settled := steps.invariant kept (deleted deletes)
    rcases outcome with ⟨_, succeeded⟩ | ⟨_, _, _, _, stopped⟩
    · rw [succeeded]
      exact reported after
    · rw [stopped]
      exact after

end Session

end ClassTrim
