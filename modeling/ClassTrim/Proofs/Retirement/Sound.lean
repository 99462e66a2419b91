import ClassTrim.Proofs.Body
import ClassTrim.Proofs.Provenance.Edit
import ClassTrim.Proofs.Simulation.Record
import ClassTrim.Retirement

/-!
# Sound sessions

In a sound session the body and the graph tell the same story: the instructions of the
body are those with a live context, and the context has popped and pushed what the
instruction's effect states. A session is sound when it begins, and each of the three
edits that a removal is made of keeps it sound. Nothing is assumed about values that
wait to be settled, so this also holds where a fault ends a removal half-way.
-/

namespace ClassTrim.Session

/-- The body and the graph of a session tell the same story. -/
structure Sound (session : Session) : Prop where
  linked : session.graph.Linked
  ordered : session.graph.Ordered
  single : session.graph.Single
  /-- Every instruction of the body has a live context. -/
  covered : ∀ {instruction}, instruction ∈ session.body.instructions →
    ∃ id context, session.graph.context? id = some context ∧ context.live = true ∧
      context.Records instruction
  /-- Every live context is one of an instruction of the body. -/
  hosted : ∀ {id context}, session.graph.context? id = some context → context.live = true →
    ∃ instruction ∈ session.body.instructions, context.Records instruction
  /-- Dead or live, contexts are those of instructions that the body once had. -/
  issued : ∀ {id context}, session.graph.context? id = some context →
    context.instruction < session.body.nextId

/-- An instruction of the body together with its live context. -/
structure Hosts (session : Session) (instruction : Instruction) (id : ContextId)
    (context : Context) : Prop where
  member : instruction ∈ session.body.instructions
  found : session.graph.context? id = some context
  live : context.live = true
  records : context.Records instruction

/-- An instruction that can be deleted: nobody takes what it pushed. -/
structure Deletes (session : Session) (instruction : Instruction) (id : ContextId)
    (context : Context) : Prop extends session.Hosts instruction id context where
  untaken : ∀ value ∈ context.pushes, session.graph.liveConsumers value = []

/-- A duplication that can be taken out from between the value that it copied and the
taker of one copy. -/
structure Collapses (session : Session) (duplication : Instruction) (id : ContextId)
    (context : Context) (source released survivor : ValueId) (taker : ContextId)
    (rewired : Graph) : Prop extends session.Hosts duplication id context where
  copies : duplication.op.isDuplication = true
  bypass : session.graph.Bypass id context source released survivor taker
  done : session.graph.substitute taker survivor source = .ok rewired

/-- An instruction with side effects whose only value nobody takes. -/
structure Discards (session : Session) (producer : Instruction) (id : ContextId)
    (context : Context) (released : ValueId) : Prop
    extends session.Hosts producer id context where
  effectful : producer.op.hasSideEffect = true
  pushes : context.pushes = [released]
  idle : session.graph.liveConsumers released = []

/-- The session after an instruction was deleted together with its context. -/
def deleted (session : Session) (instruction : Instruction) (id : ContextId) : Session :=
  (session.withGraph (session.graph.detach id)).drop instruction

/-- The session after a duplication was taken out of a graph in which nobody depends on
it any more. -/
def collapsed (session : Session) (duplication : Instruction) (id : ContextId)
    (rewired : Graph) : Session :=
  (session.withGraph (rewired.detach id)).drop duplication

/-- The instruction that is inserted behind a producer to take a value. -/
def taker (session : Session) (producer : Instruction) (released : ValueId) : Instruction :=
  ⟨session.body.nextId, producer.pc, discardOp (session.graph.content released).type⟩

/-- The session after an inserted instruction has taken a value. -/
def discarded (session : Session) (producer : Instruction) (released : ValueId) : Session :=
  let inserted := session.taker producer released
  { session.withGraph (session.graph.take inserted session.simulation.frame.id released) with
    body := session.body.splice producer.id inserted.op
    report := session.report.addInserted inserted.id }

/-- Wide values are discarded by an operation of their own. -/
theorem discardOp_cases (type : StackType) :
    (type.isWide = true ∧ discardOp type = .pop2) ∨
      (type.isWide = false ∧ discardOp type = .pop) := by
  cases wide : type.isWide with
  | true => exact .inl ⟨rfl, if_pos wide⟩
  | false => exact .inr ⟨rfl, if_neg (Bool.eq_false_iff.mp wide)⟩

/-- What is inserted to take a value pops one and pushes none. -/
theorem effect_discardOp (type : StackType) : (discardOp type).effect = ⟨1, 0⟩ := by
  rcases discardOp_cases type with ⟨_, op⟩ | ⟨_, op⟩ <;> rw [op] <;> rfl

namespace Sound

variable {session : Session} {instruction : Instruction} {id : ContextId} {context : Context}

/-- A session begins sound. -/
theorem start {frame : Frame} {body : Body} {simulation : Simulation} (fresh : frame.stack = [])
    (ran : Simulation.run frame body = .ok simulation) : (start body simulation).Sound := by
  have recorded := Simulation.Recorded.run fresh ran
  have lists := recorded.lists
  refine ⟨recorded.mirrored.linked, ?_, lists.single, ?_, ?_, ?_⟩
  · intro id context found
    obtain ⟨instruction, present, records⟩ := lists.exists_instruction found
    have older := recorded.pops_lt_pushes (List.mem_of_getElem? present)
    rw [← records.same, Graph.popsOf_eq lists.single found,
      Graph.pushesOf_eq lists.single found] at older
    exact older
  · intro instruction member
    obtain ⟨id, context, found, records⟩ := lists.exists_context member
    exact ⟨id, context, found, recorded.mirrored.alive found, records⟩
  · intro id context found _
    obtain ⟨instruction, present, records⟩ := lists.exists_instruction found
    exact ⟨instruction, List.mem_of_getElem? present, records⟩
  · intro id context found
    obtain ⟨instruction, present, records⟩ := lists.exists_instruction found
    rw [records.same]
    exact body.issued instruction (List.mem_of_getElem? present)

/-- Only the body and the graph matter. -/
theorem congr {next : Session} (sound : session.Sound) (sameBody : next.body = session.body)
    (sameGraph : next.graph = session.graph) : next.Sound := by
  obtain ⟨linked, ordered, single, covered, hosted, issued⟩ := sound
  constructor <;> rw [sameGraph]
  · exact linked
  · exact ordered
  · exact single
  · rw [sameBody]
    exact covered
  · rw [sameBody]
    exact hosted
  · rw [sameBody]
    exact issued

/-- In a sound session every instruction of the body has a live context. -/
theorem exists_hosts (sound : session.Sound) (member : instruction ∈ session.body.instructions) :
    ∃ id context, session.Hosts instruction id context := by
  obtain ⟨id, context, found, live, records⟩ := sound.covered member
  exact ⟨id, context, member, found, live, records⟩

/-- Two contexts of one instruction are the same. -/
theorem context_eq (sound : session.Sound) (hosts : session.Hosts instruction id context)
    {other : ContextId} {entry : Context} (looked : session.graph.context? other = some entry)
    (same : entry.instruction = instruction.id) : other = id :=
  sound.single looked hosts.found (same.trans hosts.records.same.symm)

/-- Erasing an instruction whose context is the only one to die leaves the body and the
live contexts in step. The live contexts may change what they pop. -/
theorem erase (sound : session.Sound) (hosts : session.Hosts instruction id context)
    {graph : Graph} (linked : graph.Linked) (ordered : graph.Ordered) (single : graph.Single)
    (kept : ∀ {other entry}, session.graph.context? other = some entry → entry.live = true →
      other ≠ id → ∃ pops, pops.length = entry.pops.length ∧
        graph.context? other = some { entry with pops })
    (old : ∀ {other entry}, graph.context? other = some entry → ∃ before,
      session.graph.context? other = some before ∧ before.instruction = entry.instruction ∧
        (entry.live = true → other ≠ id ∧ before.live = true ∧
          ∀ {host}, before.Records host → entry.Records host)) :
    ((session.withGraph graph).drop instruction).Sound where
  linked := linked
  ordered := ordered
  single := single
  covered := by
    intro other member
    obtain ⟨inside, distinct⟩ := (Body.mem_erase hosts.member).mp member
    obtain ⟨place, entry, looked, live, records⟩ := sound.covered inside
    have apart : place ≠ id := by
      intro same
      rw [same, hosts.found, Option.some.injEq] at looked
      exact distinct (records.same.symm.trans (looked ▸ hosts.records.same))
    obtain ⟨pops, length, looked⟩ := kept looked live apart
    refine ⟨place, _, looked, live, records.same, records.duplication, ?_⟩
    have fulfils := records.fulfils
    simp only [Context.fulfils] at fulfils ⊢
    rwa [length]
  hosted := by
    intro other entry looked live
    obtain ⟨before, present, sameInstruction, rest⟩ := old looked
    obtain ⟨distinct, wasLive, carry⟩ := rest live
    obtain ⟨host, member, records⟩ := sound.hosted present wasLive
    refine ⟨host, (Body.mem_erase hosts.member).mpr ⟨member, ?_⟩, carry records⟩
    intro sameId
    exact distinct (sound.context_eq hosts present (records.same.trans sameId))
  issued := by
    intro other entry looked
    obtain ⟨before, present, sameInstruction, _⟩ := old looked
    rw [← sameInstruction]
    exact sound.issued present

/-- Deleting an instruction that nobody depends on keeps a session sound. -/
theorem deleted (sound : session.Sound) (deletes : session.Deletes instruction id context) :
    (session.deleted instruction id).Sound := by
  apply sound.erase deletes.toHosts (sound.linked.detach deletes.found deletes.untaken)
    (Graph.Ordered.detach sound.ordered deletes.found)
    (Graph.Single.detach sound.single deletes.found)
  · intro other entry looked live distinct
    refine ⟨entry.pops, rfl, ?_⟩
    rw [Graph.context?_detach, if_neg (Ne.symm distinct), looked]
  · intro other entry looked
    rcases Graph.context?_detach_cases deletes.found looked with ⟨rfl, rfl⟩ | ⟨distinct, looked⟩
    · exact ⟨context, deletes.found, rfl, by simp⟩
    · exact ⟨entry, looked, rfl, fun live => ⟨distinct, live, fun records => records⟩⟩

/-- Taking a duplication out keeps a session sound. -/
theorem collapsed (sound : session.Sound) {source released survivor : ValueId}
    {taker : ContextId} {rewired : Graph}
    (collapses : session.Collapses instruction id context source released survivor taker rewired) :
    (session.collapsed instruction id rewired).Sound := by
  obtain ⟨hosts, _, bypass, done⟩ := collapses
  apply sound.erase hosts (bypass.linked sound.linked sound.ordered done)
    (bypass.ordered sound.linked sound.ordered done)
    (bypass.single sound.linked sound.ordered sound.single done)
  · intro other entry looked live distinct
    refine ⟨_, ?_, bypass.context?_of_live sound.linked sound.ordered done looked live distinct⟩
    exact List.length_map _
  · intro other entry looked
    rcases bypass.context?_cases sound.linked sound.ordered done looked with
      ⟨rfl, rfl⟩ | ⟨distinct, before, present, rfl⟩
    · exact ⟨context, hosts.found, rfl, by simp⟩
    · refine ⟨before, present, rfl, fun live => ⟨distinct, live, ?_⟩⟩
      intro host records
      refine ⟨records.same, records.duplication, ?_⟩
      have fulfils := records.fulfils
      have wasLive : before.live = true := live
      simp only [Context.fulfils] at fulfils ⊢
      rwa [if_pos wasLive, List.length_map]

/-- The inserted instruction takes one value, as its effect states. -/
theorem records_taker (session : Session) (producer : Instruction) (released : ValueId)
    (frame : Nat) :
    Context.Records
      { Context.opened (session.taker producer released) frame with pops := [released] }
      (session.taker producer released) := by
  refine ⟨rfl, rfl, ?_⟩
  simp [Context.fulfils, taker, effect_discardOp, Context.opened]

/-- The released value is live and has no taker. -/
theorem released_node (sound : session.Sound) {released : ValueId}
    (discards : session.Discards instruction id context released) :
    ∃ node, session.graph.value? released = some node ∧ node.live = true ∧
      node.poppedBy = [] := by
  have pushed : released ∈ context.pushes := by simp [discards.pushes]
  obtain ⟨node, present, producer⟩ := sound.linked.pushed discards.found pushed
  obtain ⟨entry, looked, _, sameLife⟩ := sound.linked.produced present
  rw [producer, discards.found, Option.some.injEq] at looked
  have idle := discards.idle
  rw [sound.linked.liveConsumers_eq present] at idle
  exact ⟨node, present, by rw [sameLife, ← looked, discards.live], idle⟩

/-- Letting an inserted instruction take a value keeps a session sound. -/
theorem discarded (sound : session.Sound) {released : ValueId}
    (discards : session.Discards instruction id context released) :
    (session.discarded instruction released).Sound := by
  obtain ⟨node, present, alive, free⟩ := sound.released_node discards
  have member := @Body.mem_splice session.body instruction discards.member
  constructor
  · exact sound.linked.take present alive free _ _
  · exact Graph.Ordered.take sound.ordered _ _ _
  · refine Graph.Single.take sound.single _ _ ?_
    intro other entry looked
    exact Nat.ne_of_lt (sound.issued looked)
  · intro other inside
    rcases member.mp inside with old | rfl
    · obtain ⟨place, entry, looked, live, records⟩ := sound.covered old
      exact ⟨place, entry, Graph.context?_take_of_some looked, live, records⟩
    · refine ⟨session.graph.contexts.size, _, ?_, ?_,
        records_taker session instruction released session.simulation.frame.id⟩
      · exact (Graph.context?_take ..).trans (if_pos rfl)
      · rfl
  · intro other entry looked live
    rcases Graph.context?_take_cases looked with rfl | looked
    · exact ⟨_, member.mpr (.inr rfl), records_taker ..⟩
    · obtain ⟨host, inside, records⟩ := sound.hosted looked live
      exact ⟨host, member.mpr (.inl inside), records⟩
  · intro other entry looked
    rcases Graph.context?_take_cases looked with rfl | looked
    · exact Nat.lt_succ_self _
    · exact Nat.lt_succ_of_lt (sound.issued looked)

end Sound

end ClassTrim.Session
