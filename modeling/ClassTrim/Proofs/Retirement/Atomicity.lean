import ClassTrim.Proofs.DeadStore.Progress
import ClassTrim.Proofs.Retirement.Representation

/-!
# Removals that fail

A removal checks the instruction that it is asked for before it changes anything: the instruction
must be there, no branch may lead to it, and nobody may take what it pushed. The producers that it
reaches afterwards are checked again, one by one, when the body has already been edited. In a
session that began with a run of its body all but one of these later checks find nothing. Only a
producer that a branch leads to stops a removal half-way.

A body without branches has no such producer, so there a removal does all of its work or none.
-/

namespace ClassTrim.Session

/-- The sessions that removals lead to from a run of a body, whether they succeed or fail. A new
session may take over where another one stopped; the body is never run again. -/
inductive Called (body : Body) (simulation : Simulation) : Session → Prop
  | start : Called body simulation (start body simulation)
  | remove {session : Session} (target : InstructionId)
      (called : Called body simulation session) :
      Called body simulation (session.remove target).2
  | renew {session : Session} (called : Called body simulation session) :
      Called body simulation (Session.start session.body session.simulation)

variable {session next : Session} {waiting later : List ValueId}
  {instruction : Instruction} {place : ContextId} {context : Context} {target : InstructionId}
  {fault : Fault}

/-- Sessions stay sound under removals that fail as under those that succeed. -/
theorem Called.sound {frame : Frame} {body : Body} {simulation : Simulation}
    (called : Called body simulation session) (fresh : frame.stack = [])
    (ran : Simulation.run frame body = .ok simulation) : session.Sound := by
  induction called with
  | start => exact .start fresh ran
  | remove target _ ih => exact (ih.remove target).1
  | renew _ ih => exact ih.congr rfl rfl

/-- What pushes something has been there from the beginning: whatever a step inserts pushes
nothing. -/
theorem Step.mem_of_pushes (step : Step session waiting next later)
    (member : instruction ∈ next.body.instructions) (pushes : instruction.op.effect.pushes ≠ 0) :
    instruction ∈ session.body.instructions := by
  cases step with
  | pass => exact member
  | delete deletes => exact ((Body.mem_erase deletes.member).mp member).1
  | collapse collapses => exact ((Body.mem_erase collapses.member).mp member).1
  | discard discards =>
    rcases (Body.mem_splice discards.member).mp member with old | rfl
    · exact old
    · exact absurd (congrArg Effect.pushes (effect_discardOp _)) pushes

/-- Whatever pushes a value in the end was there in the beginning: only discards are inserted. -/
theorem Steps.mem_of_pushes (steps : Steps session waiting next later)
    (member : instruction ∈ next.body.instructions) (pushes : instruction.op.effect.pushes ≠ 0) :
    instruction ∈ session.body.instructions := by
  induction steps with
  | done => exact member
  | next step _ ih => exact step.mem_of_pushes (ih member) pushes

/-- The body no longer holds an instruction, and does not give its identity to another one. -/
def Gone (session : Session) (target : InstructionId) : Prop :=
  target < session.body.nextId ∧ ∀ other ∈ session.body.instructions, other.id ≠ target

/-- An instruction that is gone is not found by its identity. -/
theorem Gone.get?_eq_none (gone : session.Gone target) : session.body.get? target = none := by
  apply Option.eq_none_iff_forall_not_mem.mpr
  intro other present
  obtain ⟨inside, same⟩ := Body.get?_eq_some_iff.mp present
  exact gone.2 other inside same

/-- No step brings an instruction back. -/
theorem Gone.step (gone : session.Gone target) (step : Step session waiting next later) :
    next.Gone target := by
  cases step with
  | pass => exact gone
  | delete deletes =>
    exact ⟨gone.1, fun other inside => gone.2 other ((Body.mem_erase deletes.member).mp inside).1⟩
  | collapse collapses =>
    exact ⟨gone.1, fun other inside => gone.2 other ((Body.mem_erase collapses.member).mp inside).1⟩
  | discard discards =>
    refine ⟨Nat.lt_succ_of_lt gone.1, fun other inside => ?_⟩
    rcases (Body.mem_splice discards.member).mp inside with old | rfl
    · exact gone.2 other old
    · exact (Nat.ne_of_lt gone.1).symm

/-- No sequence of steps brings an instruction back. -/
theorem Gone.steps (gone : session.Gone target) (steps : Steps session waiting next later) :
    next.Gone target := by
  induction steps with
  | done => exact gone
  | next step _ ih => exact ih (gone.step step)

/-- An instruction is gone once it has been deleted. -/
theorem gone_deleted (member : instruction ∈ session.body.instructions) (place : ContextId) :
    (session.deleted instruction place).Gone instruction.id :=
  ⟨session.body.issued instruction member,
    fun _ inside => ((Body.mem_erase member).mp inside).2⟩

/-- What an instruction pushed is taken as often as its pushes are popped. -/
theorem takerCount_eq (sound : session.Sound) (hosts : session.Hosts instruction place context) :
    session.graph.takerCount instruction.id =
      ((session.graph.pushesOf instruction.id).flatMap session.graph.liveConsumers).length := by
  have contexts : session.graph.liveContextsOf instruction.id = [place] := by
    rw [← hosts.records.same]
    exact Graph.liveContextsOf_eq sound.single hosts.found hosts.live
  rw [Graph.takerCount, contexts, List.flatMap_singleton, Graph.pushesIn_eq hosts.found,
    sound.pushesOf_eq hosts]

/-- An instruction has takers if one of the values that it pushed has a live consumer. -/
theorem takerCount_pos_iff (sound : session.Sound)
    (hosts : session.Hosts instruction place context) :
    0 < session.graph.takerCount instruction.id ↔
      ∃ value ∈ session.graph.pushesOf instruction.id,
        session.graph.hasLiveConsumers value = true := by
  rw [takerCount_eq sound hosts, List.length_pos_iff, Ne, List.flatMap_eq_nil_iff]
  simp [Graph.hasLiveConsumers]

/-- A removal that fails has changed nothing, or it has met an instruction of the body, other than
the one that is asked for, that a branch leads to. -/
theorem eq_or_barred_of_remove (sound : session.Sound)
    (failed : (session.remove target).1 = .error fault) :
    session.Refuses target fault ∧ (session.remove target).2 = session ∨
      (session.remove target).2.body.get? target = none ∧
        ∃ host ∈ session.body.instructions, host.id ≠ target ∧
          host ∈ (session.remove target).2.body.instructions ∧
          session.isTarget host = true ∧ fault = .branchTarget host.mnemonic host.pc := by
  rcases remove_cases sound target with ⟨reason, refuses, refused⟩ |
    ⟨instruction, place, context, settled, later, rfl, deletes, steps, outcome⟩
  · rw [refused] at failed ⊢
    cases failed
    exact .inl ⟨refuses, rfl⟩
  · rcases outcome with ⟨_, succeeded⟩ | ⟨host, home, entry, bars, stopped⟩
    · rw [succeeded] at failed
      cases failed
    · rw [stopped] at failed ⊢
      cases failed
      have gone := (gone_deleted deletes.member place).steps steps
      have pushes : host.op.effect.pushes ≠ 0 := by
        rw [← bars.records.length_pushes]
        exact Nat.ne_of_gt (List.length_pos_iff.mpr bars.pushed)
      have remained := steps.mem_of_pushes bars.member pushes
      obtain ⟨before, distinct⟩ := (Body.mem_erase deletes.member).mp remained
      have aimed : session.isTarget host = true := by
        have later := bars.aimed
        rw [isTarget, steps.targets_eq] at later
        exact later
      exact .inr ⟨gone.get?_eq_none, host, before, distinct, bars.member, aimed, rfl⟩

/-- Where no branch leads anywhere, a removal fails for one of two reasons, and then at once. -/
theorem remove_eq_error_iff (sound : session.Sound) (aimless : session.targets = []) :
    (session.remove target).1 = .error fault ↔
      (session.body.get? target = none ∧ fault = .instructionNotFound target) ∨
        ∃ instruction, session.body.get? target = some instruction ∧
          0 < session.graph.takerCount target ∧
          fault = .illegalRemoval instruction.mnemonic instruction.pc
            (session.graph.takerCount target) := by
  have unaimed : ∀ host, session.isTarget host = false := by simp [isTarget, aimless]
  constructor
  · intro failed
    rcases eq_or_barred_of_remove sound failed with ⟨refuses, _⟩ | ⟨_, host, _, _, _, aimed, _⟩
    · cases refuses with
      | missing absent => exact .inl ⟨absent, rfl⟩
      | @aimed instruction _ aimed =>
        rw [unaimed instruction] at aimed
        cases aimed
      | taken present taken => exact .inr ⟨_, present, taken, rfl⟩
    · rw [unaimed host] at aimed
      cases aimed
  · rintro (⟨absent, rfl⟩ | ⟨instruction, present, taken, rfl⟩)
    · simp [remove, delete, absent]
    · simp [remove, delete, present, unaimed instruction, taken]

/-- A removal inserts no branches. -/
theorem Straight.remove (straight : session.Straight) (sound : session.Sound)
    (target : InstructionId) : (session.remove target).2.Straight := by
  apply remove_invariant sound target straight
  · intro instruction place context deletes
    exact straight.deleted deletes.toHosts _
  · intro session next waiting later step straight
    exact straight.step step
  · exact id

/-- A removal goes by the branches that there were when the session began. -/
theorem targets_remove (sound : session.Sound) (target : InstructionId) :
    (session.remove target).2.targets = session.targets := by
  apply remove_invariant (motive := fun other => other.targets = session.targets) sound target rfl
  · intro instruction place context deletes
    rfl
  · intro before next waiting later step same
    exact step.targets_eq.trans same
  · exact id

/-- Sessions on a body without branches never know of one. -/
theorem Called.aimless {frame : Frame} {body : Body} {simulation : Simulation}
    (called : Called body simulation session) (fresh : frame.stack = [])
    (ran : Simulation.run frame body = .ok simulation) (straight : body.hasBranches = false) :
    session.Straight ∧ session.targets = [] := by
  induction called with
  | start =>
    refine ⟨?_, DeadStore.branchTargets_eq_nil straight⟩
    intro instruction member
    simpa using List.any_eq_false.mp straight instruction member
  | remove target called ih =>
    have sound := called.sound fresh ran
    exact ⟨ih.1.remove sound target, (targets_remove sound target).trans ih.2⟩
  | @renew session _ ih =>
    refine ⟨ih.1, DeadStore.branchTargets_eq_nil (List.any_eq_false.mpr ?_)⟩
    intro instruction member
    simpa using ih.1 instruction member

/-- Removal is total and atomic. On a body without branches it fails exactly if the instruction is
not there, or if somebody takes a value that the instruction's context pushed; and then body, graph
and report are left as they were. On any body, the one fault that leaves a change behind is that a
branch leads to an instruction which the removal reaches after it has deleted the one that was asked
for. -/
theorem remove_atomic {frame : Frame} {body : Body} {simulation : Simulation} {session : Session}
    (fresh : frame.stack = []) (ran : Simulation.run frame body = .ok simulation)
    (called : Called body simulation session) (target : InstructionId) :
    (body.hasBranches = false →
      (∀ fault, (session.remove target).1 = .error fault ↔
        (session.body.get? target = none ∧ fault = .instructionNotFound target) ∨
          ∃ instruction, session.body.get? target = some instruction ∧
            (∃ value ∈ session.graph.pushesOf target,
              session.graph.hasLiveConsumers value = true) ∧
            fault = .illegalRemoval instruction.mnemonic instruction.pc
              ((session.graph.pushesOf target).flatMap session.graph.liveConsumers).length) ∧
      ∀ fault, (session.remove target).1 = .error fault → (session.remove target).2 = session) ∧
    ∀ fault, (session.remove target).1 = .error fault → (session.remove target).2 ≠ session →
      (session.remove target).2.body.get? target = none ∧
        ∃ host ∈ session.body.instructions, host.id ≠ target ∧
          host ∈ (session.remove target).2.body.instructions ∧
          session.isTarget host = true ∧ fault = .branchTarget host.mnemonic host.pc := by
  have sound := called.sound fresh ran
  constructor
  · intro straight
    have aimless := (called.aimless fresh ran straight).2
    constructor
    · intro fault
      rw [remove_eq_error_iff sound aimless]
      refine or_congr Iff.rfl (exists_congr fun instruction => and_congr_right fun present => ?_)
      obtain ⟨member, rfl⟩ := Body.get?_eq_some_iff.mp present
      obtain ⟨place, context, hosts⟩ := sound.exists_hosts member
      rw [takerCount_pos_iff sound hosts, takerCount_eq sound hosts]
    · intro fault failed
      rcases eq_or_barred_of_remove sound failed with ⟨_, same⟩ | ⟨_, host, _, _, _, aimed, _⟩
      · exact same
      · simp [isTarget, aimless] at aimed
  · intro fault failed changed
    rcases eq_or_barred_of_remove sound failed with ⟨_, same⟩ | barred
    · exact absurd same changed
    · exact barred

/-- Once the store of a quotient has been removed, the division stays for the sake of the
instruction that was inserted behind it: it can neither be removed nor is anything changed by the
attempt. In a loop around a store the removal of the store stops half-way, at the constant that the
branch leads to. -/
theorem remove_atomic_quotient_and_loop :
    (∃ simulation, Simulation.run (.empty 0 1) storedQuotient = .ok simulation ∧
      ((start storedQuotient simulation).remove 4).2.remove 2 =
        (.error (.illegalRemoval "idiv" 4 1), ((start storedQuotient simulation).remove 4).2)) ∧
    ∃ simulation, Simulation.run (.empty 0 1) storeLoop = .ok simulation ∧
      ((start storeLoop simulation).remove 1).2.body.get? 1 = none ∧
      ∃ host ∈ storeLoop.instructions, host.id ≠ 1 ∧
        host ∈ ((start storeLoop simulation).remove 1).2.body.instructions ∧
        (start storeLoop simulation).isTarget host = true ∧
        Fault.branchTarget "ldc" 0 = .branchTarget host.mnemonic host.pc := by
  have quotient : ∃ simulation, Simulation.run (.empty 0 1) storedQuotient = .ok simulation ∧
      (((start storedQuotient simulation).remove 4).2.remove 2).1 =
        .error (.illegalRemoval "idiv" 4 1) := by
    refine ⟨_, rfl, ?_⟩
    cbv
  have loop : ∃ simulation, Simulation.run (.empty 0 1) storeLoop = .ok simulation ∧
      ((start storeLoop simulation).remove 1).1 = .error (.branchTarget "ldc" 0) ∧
      ((start storeLoop simulation).remove 1).2.body.size = 2 := by
    refine ⟨_, rfl, ?_, ?_⟩
    · cbv
    · cbv
  obtain ⟨simulation, ran, refused⟩ := quotient
  obtain ⟨looped, ranLoop, stopped, left⟩ := loop
  have atomic := (remove_atomic rfl ran (.remove 4 .start) 2).1 rfl
  have half := (remove_atomic rfl ranLoop .start 1).2 _ stopped
  refine ⟨⟨simulation, ran, Prod.ext refused (atomic.2 _ refused)⟩, looped, ranLoop, half ?_⟩
  intro same
  rw [same] at left
  cases left

end ClassTrim.Session
