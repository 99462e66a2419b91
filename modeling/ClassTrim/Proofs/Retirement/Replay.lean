import Mathlib.Data.List.Permutation
import ClassTrim.Proofs.Retirement.Threaded
import ClassTrim.Proofs.Simulation.Replay

/-!
# Graph and body stay in step

After removals that succeeded, the body can be run again in the frame in which it was run
first, and the new run finds what the edited graph says. `Replayed` spells this out: the
values of the new run are the live values of the graph, in the same order; every
instruction pops and pushes in the new run what its live context pops and pushes in the
graph; and the stack that the new run leaves is what is still live of the stack that the
first run left.
-/

namespace ClassTrim.Session

/-- The sessions that successful removals lead to from a run of a body. A new session may
take over where another one stopped; the body is never run again. -/
inductive Edited (body : Body) (simulation : Simulation) : Session → Prop
  | start : Edited body simulation (start body simulation)
  | remove {session : Session} (target : InstructionId) (report : Report)
      (edited : Edited body simulation session)
      (removed : (session.remove target).1 = .ok report) :
      Edited body simulation (session.remove target).2
  | renew {session : Session} (edited : Edited body simulation session) :
      Edited body simulation (Session.start session.body session.simulation)

/-- A run finds what the graph of a session says, with every value of the run standing for
a live value of the graph. -/
structure Replayed (session : Session) (again : Simulation) (stand : ValueId → ValueId) :
    Prop where
  /-- The order of the values is kept. -/
  increasing : ∀ {first second}, first < second → second < again.graph.values.size →
    stand first < stand second
  /-- The values of the run stand for the live values, and for nothing else. -/
  onto : ∀ {value}, session.graph.isLiveValue value = true ↔
    ∃ index < again.graph.values.size, stand index = value
  /-- Every instruction pops and pushes in the run what its live context pops and pushes. -/
  hosted : ∀ instruction ∈ session.body.instructions, ∃ live fresh,
    session.graph.liveContextsOf instruction.id = [live] ∧
    again.graph.contextsOf instruction.id = [fresh] ∧
    (again.graph.popsIn fresh).map stand = session.graph.popsIn live ∧
    (again.graph.pushesIn fresh).map stand = session.graph.pushesIn live

variable {session : Session} {frame : Frame}

/-- A value is live exactly if an instruction of the body pushed it. -/
theorem Sound.isLiveValue_iff (sound : session.Sound) {value : ValueId} :
    session.graph.isLiveValue value = true ↔
      value ∈ session.body.instructions.flatMap fun instruction =>
        session.graph.pushesOf instruction.id := by
  rw [List.mem_flatMap]
  constructor
  · intro alive
    cases present : session.graph.value? value with
    | none => simp [Graph.isLiveValue, present] at alive
    | some node =>
      obtain ⟨context, found, pushed, same⟩ := sound.linked.produced present
      rw [Graph.isLiveValue_of_value? present, same] at alive
      obtain ⟨instruction, member, records⟩ := sound.hosted found alive
      exact ⟨instruction, member, sound.pushesOf_eq ⟨member, found, alive, records⟩ ▸ pushed⟩
  · rintro ⟨instruction, member, pushed⟩
    obtain ⟨id, context, hosts⟩ := sound.exists_hosts member
    exact sound.isLiveValue_of_mem_pushes hosts (sound.pushesOf_eq hosts ▸ pushed)

/-- When nothing waits the body can be walked as the graph says. -/
theorem Threaded.threads (threaded : session.Threaded []) (sound : session.Sound) :
    Threads session.graph.popsOf session.graph.pushesOf [] session.body.instructions
      (session.simulation.frame.stack.filter session.graph.isLiveValue) := by
  have sees : shown session.graph.isLiveValue [] = session.graph.isLiveValue := by
    funext value
    simp [shown]
  have threads := threaded.walk.threads
  rw [sees] at threads
  apply threads.congr (fun _ _ => rfl)
  intro instruction member
  obtain ⟨id, context, hosts⟩ := sound.exists_hosts member
  symm
  apply List.filter_eq_self.mpr
  intro value pushed
  exact sound.isLiveValue_of_mem_pushes hosts (sound.pushesOf_eq hosts ▸ pushed)

/-- In a sound session every instruction pops as many values as its operation asks for. -/
theorem Sound.length_popsOf (sound : session.Sound) :
    ∀ instruction ∈ session.body.instructions,
      (session.graph.popsOf instruction.id).length = instruction.op.effect.pops := by
  intro instruction member
  obtain ⟨id, context, hosts⟩ := sound.exists_hosts member
  rw [sound.popsOf_eq hosts, hosts.records.length_pops]

/-- In a sound session every instruction pushes as many values as its operation makes. -/
theorem Sound.length_pushesOf (sound : session.Sound) :
    ∀ instruction ∈ session.body.instructions,
      (session.graph.pushesOf instruction.id).length = instruction.op.effect.pushes := by
  intro instruction member
  obtain ⟨id, context, hosts⟩ := sound.exists_hosts member
  rw [sound.pushesOf_eq hosts, hosts.records.length_pushes]

/-- A threaded session in which nothing waits has a body that can be run. -/
theorem Threaded.exists_run (threaded : session.Threaded []) (sound : session.Sound)
    (fresh : frame.stack = []) : ∃ again, Simulation.run frame session.body = .ok again :=
  (Simulation.Recorded.start frame fresh).exists_runInstructions session.body.distinct
    (threaded.threads sound) sound.length_popsOf threaded.widths

/-- The live values of the session in increasing order; a run of the body numbers them. -/
def numbering (session : Session) (index : ValueId) : ValueId :=
  Simulation.image session.graph.pushesOf session.body.instructions index

/-- A run of the body numbers the live values in increasing order. -/
theorem Threaded.numbering_lt (threaded : session.Threaded []) {first second : ValueId}
    (less : first < second) (bound : second < (session.body.instructions.flatMap
      fun instruction => session.graph.pushesOf instruction.id).length) :
    session.numbering first < session.numbering second := by
  have sorted := List.pairwise_iff_getElem.mp threaded.ascending first second
    (Nat.lt_trans less bound) bound less
  simpa [numbering, Simulation.image, List.getD_eq_getElem?_getD,
    List.getElem?_eq_getElem bound, List.getElem?_eq_getElem (Nat.lt_trans less bound)] using sorted

/-- A run of the body of a threaded session finds what the graph says. -/
theorem Threaded.replayed (threaded : session.Threaded []) (sound : session.Sound)
    {again : Simulation} (fresh : frame.stack = [])
    (ran : Simulation.run frame session.body = .ok again) :
    session.Replayed again session.numbering ∧ again.frame.stack.map session.numbering =
      session.simulation.frame.stack.filter session.graph.isLiveValue := by
  have recorded := Simulation.Recorded.run fresh ran
  have count : again.graph.values.size = (session.body.instructions.flatMap
      fun instruction => session.graph.pushesOf instruction.id).length :=
    recorded.nextValue_eq sound.length_pushesOf
  have pushes := recorded.map_image_pushesOf sound.length_pushesOf
  obtain ⟨pops, stack⟩ := recorded.map_image_popsOf (threaded.threads sound) sound.length_popsOf
    sound.length_pushesOf
  refine ⟨⟨?_, ?_, ?_⟩, stack⟩
  · intro first second less bound
    exact threaded.numbering_lt less (count ▸ bound)
  · intro value
    rw [sound.isLiveValue_iff, count, List.mem_iff_getElem]
    constructor
    · rintro ⟨index, bound, same⟩
      refine ⟨index, bound, ?_⟩
      simp [numbering, Simulation.image, List.getD_eq_getElem?_getD,
        List.getElem?_eq_getElem bound, same]
    · rintro ⟨index, bound, same⟩
      refine ⟨index, bound, ?_⟩
      simpa [numbering, Simulation.image, List.getD_eq_getElem?_getD,
        List.getElem?_eq_getElem bound] using same
  · intro instruction member
    obtain ⟨live, context, hosts⟩ := sound.exists_hosts member
    obtain ⟨newId, entry, found, records⟩ := recorded.lists.exists_context member
    have single : again.graph.Single := recorded.lists.single
    refine ⟨live, newId, ?_, ?_, ?_, ?_⟩
    · rw [← hosts.records.same]
      exact Graph.liveContextsOf_eq sound.single hosts.found hosts.live
    · rw [← records.same]
      exact Graph.contextsOf_eq single found
    · have popped := pops instruction member
      rw [sound.popsOf_eq hosts, ← records.same, Graph.popsOf_eq single found] at popped
      rw [Graph.popsIn_eq found, Graph.popsIn_eq hosts.found]
      exact popped
    · have pushed := pushes instruction member
      rw [sound.pushesOf_eq hosts, ← records.same, Graph.pushesOf_eq single found] at pushed
      rw [Graph.pushesIn_eq found, Graph.pushesIn_eq hosts.found]
      exact pushed

/-- The frame that the first run left is not touched. -/
theorem Step.frame_eq {next : Session} {waiting later : List ValueId}
    (step : Step session waiting next later) :
    next.simulation.frame = session.simulation.frame := by
  cases step <;> rfl

/-- Steps edit the body and the graph and leave the frame alone. -/
theorem Steps.frame_eq {next : Session} {waiting later : List ValueId}
    (steps : Steps session waiting next later) :
    next.simulation.frame = session.simulation.frame := by
  induction steps with
  | done => rfl
  | next step _ ih => rw [ih, step.frame_eq]

/-- A successful removal leaves the frame alone. -/
theorem frame_remove (sound : session.Sound) {target : InstructionId} {report : Report}
    (removed : (session.remove target).1 = .ok report) :
    (session.remove target).2.simulation.frame = session.simulation.frame := by
  rcases remove_cases sound target with
    ⟨fault, _, failed⟩ | ⟨instruction, id, context, settled, later, _, _, steps, outcome⟩
  · rw [failed] at removed
    cases removed
  · rcases outcome with ⟨_, succeeded⟩ | ⟨_, _, _, _, failed⟩
    · rw [succeeded]
      exact steps.frame_eq
    · rw [failed] at removed
      cases removed

/-- Successful removals keep a session sound and threaded. -/
theorem Edited.threaded {body : Body} {simulation : Simulation}
    (edited : Edited body simulation session) (fresh : frame.stack = [])
    (ran : Simulation.run frame body = .ok simulation) :
    session.Threaded [] ∧ session.Sound ∧ session.simulation.frame = simulation.frame := by
  induction edited with
  | start => exact ⟨.start fresh ran, .start fresh ran, rfl⟩
  | remove _ _ _ removed ih =>
    obtain ⟨threaded, sound, sameFrame⟩ := ih
    obtain ⟨after, afterSound⟩ := threaded.remove sound removed
    exact ⟨after, afterSound, (frame_remove sound removed).trans sameFrame⟩
  | renew _ ih =>
    obtain ⟨threaded, sound, sameFrame⟩ := ih
    exact ⟨threaded.congr rfl rfl, sound.congr rfl rfl, sameFrame⟩

/-- After any successful removals the body runs again in the frame in which it ran first.
The values of the new run stand, in order, for the live values of the edited graph; every
instruction pops and pushes what its live context does; and the new run leaves what is
still live of the stack that the first run left. -/
theorem Edited.exists_replay {body : Body} {simulation : Simulation} (fresh : frame.stack = [])
    (ran : Simulation.run frame body = .ok simulation)
    (edited : Edited body simulation session) :
    ∃ again stand, Simulation.run frame session.body = .ok again ∧
      session.Replayed again stand ∧
      again.frame.stack.map stand =
        simulation.frame.stack.filter session.graph.isLiveValue := by
  obtain ⟨threaded, sound, sameFrame⟩ := edited.threaded fresh ran
  obtain ⟨again, rerun⟩ := threaded.exists_run sound fresh
  obtain ⟨replayed, stack⟩ := threaded.replayed sound fresh rerun
  exact ⟨again, session.numbering, rerun, replayed, sameFrame ▸ stack⟩

/-- One copy of a quotient is stored, and the other one is left on the stack. -/
def storedQuotient : Body :=
  .ofPlaced 1 [(.ldc (.int 6), 0), (.ldc (.int 3), 2), (.arith .div .int, 4), (.dup, 5),
    (.store .int 0, 6)]

/-- Removing the store takes the duplication away too, since nobody takes the copy that is
left, and inserts an instruction that takes the quotient. The body runs again, and leaves
nothing on the stack. -/
theorem exists_replay_storedQuotient :
    ∃ simulation session, Simulation.run (.empty 0 1) storedQuotient = .ok simulation ∧
      Edited storedQuotient simulation session ∧
      session.body.instructions.map Instruction.id = [0, 1, 2, 5] ∧
      ∃ again stand, Simulation.run (.empty 0 1) session.body = .ok again ∧
        session.Replayed again stand ∧
        again.frame.stack.map stand =
          simulation.frame.stack.filter session.graph.isLiveValue := by
  have path : ∃ simulation session, Simulation.run (.empty 0 1) storedQuotient = .ok simulation ∧
      Edited storedQuotient simulation session ∧
      session.body.instructions.map Instruction.id = [0, 1, 2, 5] := by
    refine ⟨_, _, rfl, .remove 4 ⟨[⟨4, 6, .store .int 0⟩, ⟨3, 5, .dup⟩], [5]⟩ .start ?_, ?_⟩
    · cbv
    · cbv
  obtain ⟨simulation, session, ran, edited, left⟩ := path
  exact ⟨simulation, session, ran, edited, left, Edited.exists_replay rfl ran edited⟩

end ClassTrim.Session
