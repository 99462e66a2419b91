import Mathlib.Data.List.Permutation
import ClassTrim.Proofs.Retirement.Steps

/-!
# The representation invariant of a session

Whatever is removed from a body, and however often a removal fails, at once or half-way,
the body and the graph keep telling the same story. `Coherent` is that story in the words
of the questions that a graph answers; `Session.Sound` is what carries it from one edit to
the next.
-/

namespace ClassTrim.Session

/-- The sessions that removals lead to from a successful run of a body, together with the
identities of the instructions that the body has held. Removals may fail, and a new
session may take over where another one stopped. -/
inductive Reached : List InstructionId → Session → Prop
  | start {frame : Frame} {body : Body} {simulation : Simulation} (fresh : frame.stack = [])
      (ran : Simulation.run frame body = .ok simulation) :
      Reached (body.instructions.map Instruction.id) (start body simulation)
  | remove {held : List InstructionId} {session : Session} (target : InstructionId)
      (reached : Reached held session) :
      Reached (held ++ (session.remove target).2.body.instructions.map Instruction.id)
        (session.remove target).2
  | renew {held : List InstructionId} {session : Session} (reached : Reached held session) :
      Reached held (Session.start session.body session.simulation)

/-- The body and the graph of a session agree. -/
structure Coherent (held : List InstructionId) (session : Session) : Prop where
  /-- The consistency check finds nothing. -/
  checked : session.graph.check = .ok ()
  /-- Every instruction that the body has held has one context, which is live exactly as
  long as the instruction is in the body. -/
  hosted : ∀ instruction ∈ held, ∃ id, session.graph.contextsOf instruction = [id] ∧
    (session.graph.isLive id = true ↔ instruction ∈ session.body.instructions.map Instruction.id)
  /-- The body holds what it is known to hold. -/
  known : ∀ instruction ∈ session.body.instructions, instruction.id ∈ held
  /-- No instruction has two contexts. -/
  alone : ∀ {id context}, session.graph.context? id = some context →
    session.graph.contextsOf context.instruction = [id]
  /-- A value has a producer, and is live exactly when that is. -/
  produced : ∀ {value node}, session.graph.value? value = some node →
    ∃ context, session.graph.producer? value = some context ∧
      (node.live = true ↔ context.live = true)
  /-- Live contexts pop live values. -/
  popped : ∀ {id context}, session.graph.context? id = some context → context.live = true →
    ∀ value ∈ context.pops, ∃ node, session.graph.value? value = some node ∧ node.live = true
  /-- No value has two live consumers. -/
  single : ∀ value, (session.graph.liveConsumers value).length ≤ 1
  /-- A dead value has no live consumer. -/
  dead : ∀ {value node}, session.graph.value? value = some node → node.live = false →
    session.graph.liveConsumers value = []
  /-- A live context has popped and pushed what its instruction's effect states. -/
  fulfilled : ∀ {id context}, session.graph.context? id = some context → context.live = true →
    ∃ instruction ∈ session.body.instructions, instruction.id = context.instruction ∧
      context.fulfils instruction.op.effect = true

/-- Nothing that happened is forgotten: contexts stay, dead or live, and stay with their
instructions. -/
def Remembers (session next : Session) : Prop :=
  ∀ id context, session.graph.context? id = some context →
    ∃ entry, next.graph.context? id = some entry ∧ entry.instruction = context.instruction

/-- Where nothing happens nothing is forgotten. -/
theorem Remembers.refl (session : Session) : session.Remembers session :=
  fun _ _ found => ⟨_, found, rfl⟩

/-- What is remembered twice over is remembered from the beginning. -/
theorem Remembers.trans {session middle last : Session} (first : session.Remembers middle)
    (second : middle.Remembers last) : session.Remembers last := by
  intro id context found
  obtain ⟨entry, entered, same⟩ := first id context found
  obtain ⟨final, reached, again⟩ := second id entry entered
  exact ⟨final, reached, again.trans same⟩

variable {session next : Session} {waiting later : List ValueId}

/-- A deletion kills contexts and forgets none. -/
theorem remembers_deleted (session : Session) (instruction : Instruction) (id : ContextId) :
    session.Remembers (session.deleted instruction id) := by
  intro other context found
  have looked : (session.deleted instruction id).graph.context? other =
      (session.graph.detach id).context? other := rfl
  rw [looked, Graph.context?_detach, found]
  split
  · exact ⟨_, rfl, rfl⟩
  · exact ⟨_, rfl, rfl⟩

/-- A collapse forgets no context. -/
theorem remembers_collapsed (sound : session.Sound) {duplication : Instruction} {id : ContextId}
    {context : Context} {source released survivor : ValueId} {taker : ContextId} {rewired : Graph}
    (collapses : session.Collapses duplication id context source released survivor taker rewired) :
    session.Remembers (session.collapsed duplication id rewired) := by
  obtain ⟨hosts, _, bypass, done⟩ := collapses
  intro other entry found
  have looked : (session.collapsed duplication id rewired).graph.context? other =
      (rewired.detach id).context? other := rfl
  rw [looked, bypass.context?_eq sound.linked sound.ordered done, found]
  by_cases isHere : other = id
  · rw [isHere, hosts.found, Option.some.injEq] at found
    rw [if_pos isHere, ← found]
    exact ⟨_, rfl, rfl⟩
  · rw [if_neg isHere]
    exact ⟨_, rfl, rfl⟩

/-- No step forgets a context. -/
theorem Step.remembers (sound : session.Sound) (step : Step session waiting next later) :
    session.Remembers next := by
  cases step with
  | pass => exact .refl session
  | delete => exact remembers_deleted _ _ _
  | collapse collapses => exact remembers_collapsed sound collapses
  | discard => exact fun _ _ found => ⟨_, Graph.context?_take_of_some found, rfl⟩

/-- No sequence of steps forgets a context. -/
theorem Steps.remembers (sound : session.Sound) (steps : Steps session waiting next later) :
    session.Remembers next := by
  induction steps with
  | done => exact .refl _
  | next step _ ih => exact (step.remembers sound).trans (ih (sound.step step))

/-- A removal, successful or not, keeps a session sound and forgets nothing. -/
theorem Sound.remove (sound : session.Sound) (target : InstructionId) :
    (session.remove target).2.Sound ∧ session.Remembers (session.remove target).2 := by
  rcases remove_cases sound target with
    ⟨fault, _, result⟩ | ⟨instruction, id, context, settled, later, _, deletes, steps, outcome⟩
  · rw [result]
    exact ⟨sound, .refl session⟩
  · have settledSound := (sound.deleted deletes).steps steps
    have remembered : session.Remembers settled :=
      (remembers_deleted session instruction id).trans (steps.remembers (sound.deleted deletes))
    rcases outcome with ⟨_, result⟩ | ⟨_, _, _, _, result⟩
    · rw [result]
      exact ⟨settledSound.congr rfl rfl, remembered⟩
    · rw [result]
      exact ⟨settledSound, remembered⟩

/-- What the body has held has a context. -/
def Recalls (held : List InstructionId) (session : Session) : Prop :=
  (∀ instruction ∈ held, ∃ id context, session.graph.context? id = some context ∧
    context.instruction = instruction) ∧
  ∀ instruction ∈ session.body.instructions, instruction.id ∈ held

/-- Every session that removals lead to is sound, and knows what its body has held. -/
theorem Reached.sound {held : List InstructionId} (reached : Reached held session) :
    session.Sound ∧ Recalls held session := by
  induction reached with
  | start fresh ran =>
    have sound := Sound.start fresh ran
    refine ⟨sound, ?_, fun instruction member => List.mem_map_of_mem member⟩
    intro id member
    obtain ⟨instruction, inside, rfl⟩ := List.mem_map.mp member
    obtain ⟨place, context, found, _, records⟩ := sound.covered inside
    exact ⟨place, context, found, records.same⟩
  | remove target _ ih =>
    obtain ⟨sound, recalls, _⟩ := ih
    obtain ⟨after, remembered⟩ := sound.remove target
    refine ⟨after, ?_, fun instruction member =>
      List.mem_append_right _ (List.mem_map_of_mem member)⟩
    intro id member
    rcases List.mem_append.mp member with old | new
    · obtain ⟨place, context, found, same⟩ := recalls id old
      obtain ⟨entry, entered, kept⟩ := remembered place context found
      exact ⟨place, entry, entered, kept.trans same⟩
    · obtain ⟨instruction, inside, rfl⟩ := List.mem_map.mp new
      obtain ⟨place, context, found, _, records⟩ := after.covered inside
      exact ⟨place, context, found, records.same⟩
  | renew _ ih => exact ⟨ih.1.congr rfl rfl, ih.2⟩

/-- In a sound session an instruction is in the body exactly when its context is live. -/
theorem Sound.live_iff (sound : session.Sound) {id : ContextId} {context : Context}
    (found : session.graph.context? id = some context) :
    context.live = true ↔
      context.instruction ∈ session.body.instructions.map Instruction.id := by
  constructor
  · intro live
    obtain ⟨instruction, member, records⟩ := sound.hosted found live
    exact records.same ▸ List.mem_map_of_mem member
  · intro member
    obtain ⟨instruction, inside, same⟩ := List.mem_map.mp member
    obtain ⟨place, entry, entered, live, records⟩ := sound.covered inside
    have isHere : place = id := sound.single entered found (records.same.trans same)
    rw [isHere, found, Option.some.injEq] at entered
    rw [entered, live]

/-- The representation invariant: after any removals, failed ones included, the body and
the graph agree. -/
theorem Reached.coherent {held : List InstructionId} (reached : Reached held session) :
    session.Coherent held := by
  obtain ⟨sound, recalls, known⟩ := reached.sound
  have linked := sound.linked
  constructor
  · exact linked.check_eq_ok
  · intro instruction member
    obtain ⟨id, context, found, rfl⟩ := recalls instruction member
    refine ⟨id, Graph.contextsOf_eq sound.single found, ?_⟩
    rw [Graph.isLive_of_context? found]
    exact sound.live_iff found
  · exact known
  · intro id context found
    exact Graph.contextsOf_eq sound.single found
  · intro value node found
    obtain ⟨context, entered, _, same⟩ := linked.produced found
    exact ⟨context, by simp [Graph.producer?, found, entered], by rw [same]⟩
  · intro id context found live value member
    obtain ⟨node, present, alive, _⟩ := linked.popped found live member
    exact ⟨node, present, alive⟩
  · exact linked.length_liveConsumers_le
  · intro value node found dead
    rw [linked.liveConsumers_eq found]
    apply List.eq_nil_iff_forall_not_mem.mpr
    intro id member
    have alive := linked.live_of_poppedBy found member
    rw [dead] at alive
    cases alive
  · intro id context found live
    obtain ⟨instruction, member, records⟩ := sound.hosted found live
    exact ⟨instruction, member, records.same.symm, records.fulfils⟩

/-- A constant is stored, and a branch leads back to it. -/
def storeLoop : Body :=
  .ofPlaced 1 [(.ldc (.int 1), 0), (.store .int 0, 2), (.goto 0, 3)]

/-- Removing the store of the loop fails half-way, at the constant that the branch leads
to. Then the branch is removed. -/
theorem coherent_after_fault :
    ∃ simulation, Simulation.run (.empty 0 1) storeLoop = .ok simulation ∧
      ((start storeLoop simulation).remove 1).1 = .error (.branchTarget "ldc" 0) ∧
      Coherent [0, 1, 2, 0, 2, 0] (((start storeLoop simulation).remove 1).2.remove 2).2 := by
  have path : ∃ simulation, Simulation.run (.empty 0 1) storeLoop = .ok simulation ∧
      ((start storeLoop simulation).remove 1).1 = .error (.branchTarget "ldc" 0) ∧
      ∃ held, Reached held (((start storeLoop simulation).remove 1).2.remove 2).2 ∧
        held = [0, 1, 2, 0, 2, 0] :=
    ⟨_, rfl, by cbv, _, .remove 2 (.remove 1 (.start rfl rfl)), by cbv⟩
  obtain ⟨simulation, ran, failed, held, reached, rfl⟩ := path
  exact ⟨simulation, ran, failed, reached.coherent⟩

end ClassTrim.Session
