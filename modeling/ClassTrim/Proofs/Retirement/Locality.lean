import Mathlib.Data.List.Basic
import ClassTrim.Proofs.Retirement.Guard
import ClassTrim.Proofs.Retirement.Replay

/-!
# What a removal edits

A removal deletes instructions and inserts others, and leaves all else where and as it was. Apart
from the instruction that is asked for, it deletes nothing that has side effects. What it inserts
takes the value of an instruction with side effects, right behind that instruction and in its
place: no step deletes either of the two, and none puts anything between them, since the value has
its taker.
-/

namespace ClassTrim

/-- To discard a value is no side effect. -/
theorem Op.hasSideEffect_of_isDiscard {op : Op} (discards : op.isDiscard = true) :
    op.hasSideEffect = false := by
  cases op <;> simp_all [isDiscard, hasSideEffect]

namespace Session

variable {session next : Session} {waiting later : List ValueId}
  {instruction producer taker : Instruction} {place : ContextId} {context : Context}
  {value : ValueId} {target : InstructionId} {first : Body}

/-- An instruction stands right behind one with side effects, in its place, and discards the value
that it pushed. -/
structure Attached (session : Session) (producer taker : Instruction) (value : ValueId) :
    Prop where
  behind : [producer, taker] <:+: session.body.instructions
  effectful : producer.op.hasSideEffect = true
  pc : taker.pc = producer.pc
  takes : session.graph.popsOf taker.id = [value]
  pushes : session.graph.pushesOf producer.id = [value]
  op : taker.op = if session.simulation.isWideValue value then .pop2 else .pop

namespace Attached

/-- An instruction that discards right behind another guards its value. -/
theorem guard (attached : session.Attached producer taker value) :
    session.Guard taker producer value where
  inside := attached.behind.subset (by simp)
  member := attached.behind.subset (by simp)
  discards := by
    rw [attached.op]
    split <;> rfl
  effectful := attached.effectful
  takes := attached.takes
  pushes := by simp [attached.pushes]

/-- Only the body and the simulation matter. -/
theorem congr (attached : session.Attached producer taker value)
    (sameBody : next.body = session.body) (sameSimulation : next.simulation = session.simulation) :
    next.Attached producer taker value := by
  obtain ⟨behind, effectful, pc, takes, pushes, op⟩ := attached
  have sameGraph : next.graph = session.graph := by rw [graph, sameSimulation, graph]
  constructor
  · rwa [sameBody]
  · exact effectful
  · exact pc
  · rwa [sameGraph]
  · rwa [sameGraph]
  · rwa [sameSimulation]

/-- Neighbours stay neighbours when another instruction is erased. -/
theorem behind_erase (attached : session.Attached producer taker value)
    (member : instruction ∈ session.body.instructions) (notProducer : producer.id ≠ instruction.id)
    (notTaker : taker.id ≠ instruction.id) :
    [producer, taker] <:+: (session.body.erase instruction.id).instructions := by
  have kept := attached.behind.filter fun other => decide (other.id ≠ instruction.id)
  rw [← Body.instructions_erase_eq_filter member] at kept
  simpa [notProducer, notTaker] using kept

/-- An instruction without side effects that has pushed something is neither of the two. -/
theorem apart (attached : session.Attached producer taker value)
    (hosts : session.Hosts instruction place context) {pushed : ValueId}
    (member : pushed ∈ context.pushes) (pure : instruction.op.hasSideEffect = false) :
    producer.id ≠ instruction.id ∧ taker.id ≠ instruction.id := by
  constructor
  · intro same
    have effectful := attached.effectful
    rw [Body.eq_of_id_eq attached.guard.member hosts.member same, pure] at effectful
    cases effectful
  · intro same
    have discards := attached.guard.discards
    rw [Body.eq_of_id_eq attached.guard.inside hosts.member same,
      hosts.not_isDiscard member] at discards
    cases discards

/-- A deletion of a third instruction leaves the two next to each other. -/
theorem deleted (attached : session.Attached producer taker value) (sound : session.Sound)
    (deletes : session.Deletes instruction place context)
    (notProducer : producer.id ≠ instruction.id)
    (notTaker : taker.id ≠ instruction.id) :
    (session.deleted instruction place).Attached producer taker value := by
  have guard := attached.guard.deleted sound deletes (fun same => notTaker (congrArg _ same))
    fun same => notProducer (congrArg _ same)
  refine ⟨attached.behind_erase deletes.member notProducer notTaker, attached.effectful,
    attached.pc, guard.takes, ?_, ?_⟩
  · rw [sound.pushesOf_deleted deletes guard.member, attached.pushes]
  · rw [isWideValue_deleted deletes, attached.op]

/-- A collapse leaves the two next to each other: a duplication is neither of them. -/
theorem collapsed (attached : session.Attached producer taker value) (sound : session.Sound)
    {source released survivor : ValueId} {consumer : ContextId} {rewired : Graph}
    (collapses : session.Collapses instruction place context source released survivor consumer
      rewired) :
    (session.collapsed instruction place rewired).Attached producer taker value := by
  obtain ⟨notProducer, notTaker⟩ := attached.apart collapses.toHosts
    (collapses.bypass.mem_pushes.mpr (.inl rfl)) (hasSideEffect_of_isDuplication collapses.copies)
  have guard := attached.guard.collapsed sound collapses
  refine ⟨attached.behind_erase collapses.member notProducer notTaker, attached.effectful,
    attached.pc, guard.takes, ?_, ?_⟩
  · rw [sound.pushesOf_collapsed collapses guard.member, attached.pushes]
  · rw [isWideValue_collapsed sound collapses, attached.op]

/-- Nothing is inserted between the two: the value of the first has its taker. -/
theorem discarded (attached : session.Attached producer taker value) (sound : session.Sound)
    {released : ValueId} (discards : session.Discards instruction place context released) :
    (session.discarded instruction released).Attached producer taker value := by
  have guard := attached.guard.discarded sound discards
  have apart : producer.id ≠ instruction.id := by
    intro same
    obtain rfl := Body.eq_of_id_eq attached.guard.member discards.member same
    have pushes := attached.pushes
    rw [sound.pushesOf_eq discards.toHosts, discards.pushes] at pushes
    obtain rfl := List.singleton_inj.mp pushes
    obtain ⟨home, entry, hosts⟩ := sound.exists_hosts attached.guard.inside
    have popped : released ∈ entry.pops := by
      rw [← sound.popsOf_eq hosts, attached.takes]
      exact List.mem_singleton_self _
    exact sound.linked.not_mem_pops_of_idle discards.idle hosts.found hosts.live popped
  refine ⟨Body.infix_spliceAfter attached.behind apart, attached.effectful, attached.pc,
    guard.takes, ?_, ?_⟩
  · rw [sound.pushesOf_discarded discards attached.guard.member, attached.pushes]
  · rw [isWideValue_discarded, attached.op]

end Attached

/-- What is inserted is attached. -/
theorem attached_taker {released : ValueId} (sound : session.Sound)
    (discards : session.Discards instruction place context released) :
    (session.discarded instruction released).Attached instruction
      (session.taker instruction released) released := by
  obtain ⟨front, rear, split⟩ := List.append_of_mem discards.member
  refine ⟨?_, discards.effectful, rfl, sound.popsOf_taker discards, ?_, ?_⟩
  · have spliced := Body.instructions_splice split (session.taker instruction released).op
    exact ⟨front, rear, by rw [discarded, spliced, List.append_assoc]; rfl⟩
  · rw [sound.pushesOf_discarded discards discards.member, sound.pushesOf_eq discards.toHosts,
      discards.pushes]
  · rw [isWideValue_discarded]
    rfl

/-- How the body of a session differs from an earlier one, by its report, while an instruction is
being removed. -/
structure Trims (session : Session) (first : Body) (target : InstructionId) : Prop where
  survivors : session.body.instructions.filter (fun other => other.id ∉ session.report.inserted) =
    first.instructions.filter (fun other => other.id ∉ session.report.removedIds)
  asked : target ∈ session.report.removedIds
  removed : ∀ gone ∈ session.report.removed,
    gone ∈ first.instructions ∧ (gone.id = target ∨ gone.op.hasSideEffect = false)
  inserted : ∀ id ∈ session.report.inserted,
    first.nextId ≤ id ∧ ∃ producer taker value, taker.id = id ∧
      session.Attached producer taker value
  grown : first.nextId ≤ session.body.nextId

namespace Trims

/-- A removal begins with the instruction that is asked for. -/
theorem start (unreported : session.report = .empty)
    (member : instruction ∈ session.body.instructions) (place : ContextId) :
    (session.deleted instruction place).Trims session.body instruction.id := by
  have report : (session.deleted instruction place).report = ⟨[instruction], []⟩ := by
    simp [Session.deleted, drop, withGraph, unreported, Report.addRemoved, Report.empty]
  refine ⟨?_, ?_, ?_, ?_, Nat.le_refl _⟩
  · have erased : (session.deleted instruction place).body.instructions =
        session.body.instructions.filter (fun other => decide (other.id ≠ instruction.id)) :=
      Body.instructions_erase_eq_filter member
    simpa [report, Report.removedIds] using erased
  · simp [report, Report.removedIds]
  · simp [report, member]
  · simp [report]

/-- An instruction without side effects that was there at first may be dropped, if the inserted ones
stay attached. -/
theorem dropped {graph : Graph} (trims : session.Trims first target)
    (member : instruction ∈ session.body.instructions)
    (own : instruction.id ∉ session.report.inserted)
    (pure : instruction.op.hasSideEffect = false)
    (kept : ∀ producer taker value, session.Attached producer taker value →
      ((session.withGraph graph).drop instruction).Attached producer taker value) :
    ((session.withGraph graph).drop instruction).Trims first target where
  survivors := by
    have ids : (session.report.addRemoved instruction).removedIds =
        session.report.removedIds ++ [instruction.id] := by
      simp [Report.addRemoved, Report.removedIds]
    calc (session.body.erase instruction.id).instructions.filter
          (fun other => other.id ∉ session.report.inserted)
        = (session.body.instructions.filter
            (fun other => other.id ∉ session.report.inserted)).filter
              (fun other => other.id ≠ instruction.id) := by
          rw [Body.instructions_erase_eq_filter member, List.filter_comm]
      _ = (first.instructions.filter (fun other => other.id ∉ session.report.removedIds)).filter
            (fun other => other.id ≠ instruction.id) := by rw [trims.survivors]
      _ = first.instructions.filter (fun other =>
            other.id ∉ (session.report.addRemoved instruction).removedIds) := by
          rw [List.filter_filter, ids]
          apply List.filter_congr
          intro other _
          simp [and_comm]
  asked := by
    obtain ⟨gone, listed, same⟩ := List.mem_map.mp trims.asked
    exact List.mem_map.mpr ⟨gone, List.mem_append_left _ listed, same⟩
  removed := by
    intro gone listed
    rcases List.mem_append.mp listed with old | new
    · exact trims.removed gone old
    · rw [List.mem_singleton.mp new]
      have survives : instruction ∈ session.body.instructions.filter
          (fun other => other.id ∉ session.report.inserted) :=
        List.mem_filter.mpr ⟨member, decide_eq_true own⟩
      rw [trims.survivors] at survives
      exact ⟨(List.mem_filter.mp survives).1, .inr pure⟩
  inserted := by
    intro id listed
    obtain ⟨new, producer, taker, value, rfl, attached⟩ := trims.inserted id listed
    exact ⟨new, producer, taker, value, rfl, kept producer taker value attached⟩
  grown := trims.grown

/-- What is deleted on account of a value that it pushed was not inserted before. -/
theorem not_inserted (trims : session.Trims first target)
    (hosts : session.Hosts instruction place context) (pushed : value ∈ context.pushes)
    (pure : instruction.op.hasSideEffect = false) :
    instruction.id ∉ session.report.inserted := by
  intro listed
  obtain ⟨_, producer, taker, _, same, attached⟩ := trims.inserted _ listed
  exact (attached.apart hosts pushed pure).2 same

/-- An inserted discard is accounted for, attached to the instruction whose value it takes. -/
theorem discarded (trims : session.Trims first target) (sound : session.Sound)
    {released : ValueId} (discards : session.Discards instruction place context released) :
    (session.discarded instruction released).Trims first target where
  survivors := by
    obtain ⟨front, rear, split⟩ := List.append_of_mem discards.member
    have spliced := Body.instructions_splice split (session.taker instruction released).op
    calc (session.body.splice instruction.id
            (session.taker instruction released).op).instructions.filter
          (fun other => other.id ∉ session.report.inserted ++ [session.body.nextId])
        = session.body.instructions.filter
            (fun other => other.id ∉ session.report.inserted ++ [session.body.nextId]) := by
          rw [spliced, split]
          simp [List.filter_cons]
      _ = session.body.instructions.filter (fun other => other.id ∉ session.report.inserted) := by
          apply List.filter_congr
          intro other member
          simp [Nat.ne_of_lt (session.body.issued other member)]
      _ = first.instructions.filter (fun other => other.id ∉ session.report.removedIds) :=
          trims.survivors
  asked := trims.asked
  removed := trims.removed
  inserted := by
    intro id listed
    rcases List.mem_append.mp listed with old | new
    · obtain ⟨young, producer, taker, value, rfl, attached⟩ := trims.inserted id old
      exact ⟨young, producer, taker, value, rfl, attached.discarded sound discards⟩
    · rw [List.mem_singleton.mp new]
      exact ⟨trims.grown, _, _, _, rfl, attached_taker sound discards⟩
  grown := Nat.le_succ_of_le trims.grown

/-- Every step is accounted for by the report. -/
theorem step (trims : session.Trims first target) (sound : session.Sound)
    (step : Step session waiting next later) : next.Trims first target := by
  cases step with
  | pass => exact trims
  | delete deletes pure pushed =>
    refine trims.dropped deletes.member (trims.not_inserted deletes.toHosts pushed pure) pure ?_
    intro producer taker value attached
    obtain ⟨notProducer, notTaker⟩ := attached.apart deletes.toHosts pushed pure
    exact attached.deleted sound deletes notProducer notTaker
  | collapse collapses =>
    have pure := hasSideEffect_of_isDuplication collapses.copies
    have pushed := collapses.bypass.mem_pushes.mpr (.inl rfl)
    refine trims.dropped collapses.member (trims.not_inserted collapses.toHosts pushed pure)
      pure ?_
    intro producer taker value attached
    exact attached.collapsed sound collapses
  | discard discards => exact trims.discarded sound discards

/-- Any number of steps are accounted for by the report. -/
theorem steps (trims : session.Trims first target) (sound : session.Sound)
    (steps : Steps session waiting next later) : next.Trims first target := by
  induction steps with
  | done => exact trims
  | next step _ ih => exact ih (trims.step sound step) (sound.step step)

/-- What has side effects stays, in order, but for the instruction that is asked for. -/
theorem effects (trims : session.Trims first target) :
    session.body.instructions.filter (fun other => other.op.hasSideEffect) =
      first.instructions.filter (fun other => other.op.hasSideEffect && other.id ≠ target) := by
  calc session.body.instructions.filter (fun other => other.op.hasSideEffect)
      = (session.body.instructions.filter
          (fun other => other.id ∉ session.report.inserted)).filter
            (fun other => other.op.hasSideEffect) := by
        rw [List.filter_filter]
        apply List.filter_congr
        intro other member
        by_cases listed : other.id ∈ session.report.inserted
        · obtain ⟨_, producer, taker, value, same, attached⟩ := trims.inserted _ listed
          obtain rfl := Body.eq_of_id_eq attached.guard.inside member same
          simp [Op.hasSideEffect_of_isDiscard attached.guard.discards]
        · simp [listed]
    _ = (first.instructions.filter (fun other => other.id ∉ session.report.removedIds)).filter
          (fun other => other.op.hasSideEffect) := by rw [trims.survivors]
    _ = first.instructions.filter (fun other => other.op.hasSideEffect && other.id ≠ target) := by
        rw [List.filter_filter]
        apply List.filter_congr
        intro other member
        by_cases here : other.id = target
        · simp [here, trims.asked]
        · have spared : other.op.hasSideEffect = true → other.id ∉ session.report.removedIds := by
            intro effectful listed
            obtain ⟨gone, removed, same⟩ := List.mem_map.mp listed
            obtain ⟨inside, licensed⟩ := trims.removed gone removed
            obtain rfl := Body.eq_of_id_eq inside member same
            rcases licensed with isTarget | pure
            · exact here isTarget
            · rw [effectful] at pure
              cases pure
          cases effectful : other.op.hasSideEffect with
          | false => simp
          | true => simp [here, spared effectful]

end Trims

/-- The report of a removal that succeeds tells how the body was trimmed, and the next removal
begins with an empty one. -/
theorem trims_remove (sound : session.Sound) {report : Report}
    (removed : (session.remove target).1 = .ok report) :
    ∃ settled : Session, (session.remove target).2 = { settled with report := .empty } ∧
      settled.report = report ∧
      (session.report = .empty → settled.Trims session.body target) := by
  rcases remove_cases sound target with
    ⟨fault, _, failed⟩ |
      ⟨instruction, place, context, settled, later, rfl, deletes, steps, outcome⟩
  · rw [failed] at removed
    cases removed
  · rcases outcome with ⟨_, succeeded⟩ | ⟨_, _, _, _, failed⟩
    · rw [succeeded] at removed ⊢
      refine ⟨settled, rfl, Except.ok.inj removed, fun unreported => ?_⟩
      exact (Trims.start unreported deletes.member place).steps (sound.deleted deletes) steps
    · rw [failed] at removed
      cases removed

/-- Between removals the report is empty. -/
theorem Edited.report_eq {frame : Frame} {body : Body} {simulation : Simulation}
    (edited : Edited body simulation session) (fresh : frame.stack = [])
    (ran : Simulation.run frame body = .ok simulation) : session.report = .empty := by
  cases edited with
  | start => rfl
  | remove target report edited removed =>
    obtain ⟨_, outcome, _⟩ := trims_remove (edited.threaded fresh ran).2.1 removed
    rw [outcome]
  | renew => rfl

/-- What a removal may edit. Whatever survives keeps its place in the order, with all that it is
made of. Apart from the instruction that is asked for, nothing with side effects is deleted, so
the others follow each other as before. Whatever is inserted is new and stands right behind an
instruction with side effects, to discard the value that this one pushed. -/
theorem remove_edits {frame : Frame} {body : Body} {simulation : Simulation} {session : Session}
    (fresh : frame.stack = []) (ran : Simulation.run frame body = .ok simulation)
    (edited : Edited body simulation session) {target : InstructionId} {report : Report}
    (removed : (session.remove target).1 = .ok report) :
    (session.remove target).2.body.instructions.filter (·.id ∉ report.inserted) =
        session.body.instructions.filter (·.id ∉ report.removedIds) ∧
      target ∈ report.removedIds ∧
      (∀ gone ∈ report.removed, gone ∈ session.body.instructions ∧
        (gone.id = target ∨ gone.op.hasSideEffect = false)) ∧
      (session.remove target).2.body.instructions.filter (·.op.hasSideEffect) =
        session.body.instructions.filter
          (fun other => other.op.hasSideEffect && other.id ≠ target) ∧
      ∀ id ∈ report.inserted, id ∉ session.body.instructions.map Instruction.id ∧
        ∃ producer taker value, taker.id = id ∧
          (session.remove target).2.Attached producer taker value := by
  obtain ⟨_, sound, _⟩ := edited.threaded fresh ran
  obtain ⟨settled, outcome, rfl, trimmed⟩ := trims_remove sound removed
  have trims := trimmed (edited.report_eq fresh ran)
  rw [outcome]
  refine ⟨trims.survivors, trims.asked, trims.removed, trims.effects, ?_⟩
  intro id listed
  obtain ⟨young, producer, taker, value, same, attached⟩ := trims.inserted id listed
  refine ⟨?_, producer, taker, value, same, attached.congr rfl rfl⟩
  intro old
  obtain ⟨other, member, rfl⟩ := List.mem_map.mp old
  exact Nat.not_lt_of_le young (session.body.issued other member)

/-- Removing the store of a quotient deletes the duplication ahead of it as well, which has no side
effects. The division has, and stays with a discarding instruction behind it. -/
theorem remove_edits_storedQuotient :
    ∃ simulation, Simulation.run (.empty 0 1) storedQuotient = .ok simulation ∧
      ((start storedQuotient simulation).remove 4).1 =
        .ok ⟨[⟨4, 6, .store .int 0⟩, ⟨3, 5, .dup⟩], [5]⟩ ∧
      ((start storedQuotient simulation).remove 4).2.body.instructions.filter
        (·.op.hasSideEffect) = [⟨2, 4, .arith .div .int⟩] ∧
      ∃ producer taker value, taker.id = 5 ∧
        ((start storedQuotient simulation).remove 4).2.Attached producer taker value := by
  have path : ∃ simulation, Simulation.run (.empty 0 1) storedQuotient = .ok simulation ∧
      ((start storedQuotient simulation).remove 4).1 =
        .ok ⟨[⟨4, 6, .store .int 0⟩, ⟨3, 5, .dup⟩], [5]⟩ := by
    refine ⟨_, rfl, ?_⟩
    cbv
  obtain ⟨simulation, ran, removed⟩ := path
  obtain ⟨-, -, -, effects, inserted⟩ := remove_edits rfl ran .start removed
  exact ⟨simulation, ran, removed, effects, (inserted 5 (List.mem_singleton_self 5)).2⟩

end Session

end ClassTrim
