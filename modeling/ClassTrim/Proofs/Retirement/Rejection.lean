import Mathlib.Control.Monad.Basic
import ClassTrim.Proofs.Provenance.Copies
import ClassTrim.Proofs.Retirement.Representation

/-!
# Which values a producer answers for

A producer is retired on account of a value that it pushed. Only a duplication looks at who pushed
the value, since it has to tell its two copies apart. It rejects what is not its own and nothing
else, and a rejection changes nothing. Any other instruction answers for every value of the graph
as if it had pushed it: one without side effects agrees to be deleted, and one with side effects
gets an instruction behind it that takes the value, also from under another taker.

A value that the graph does not have is pushed by nobody. A duplication rejects it like any foreign
value, and an instruction without side effects does not look at it. For an instruction with side
effects the insertion is made before the value is looked up, so the work breaks off with a body that
has the new instruction and an account that does not mention it.
-/

namespace ClassTrim

namespace Graph

variable {graph : Graph}

/-- Those who take a value can be given another one: they do pop it. -/
theorem Linked.exists_rewire (linked : graph.Linked) (old new : ValueId) :
    ∃ rewired, graph.rewire old new (graph.liveConsumers old) = .ok rewired := by
  cases found : graph.value? old with
  | none => exact ⟨graph, by simp [liveConsumers, found, rewire]⟩
  | some node =>
    rw [linked.liveConsumers_eq found]
    cases consumers : node.poppedBy with
    | nil => exact ⟨graph, rfl⟩
    | cons taker rest =>
      have member : taker ∈ node.poppedBy := consumers ▸ List.mem_cons_self
      obtain ⟨context, entered, -, pops⟩ := linked.consumed found member
      have alone : taker :: rest = [taker] := consumers ▸ linked.poppedBy_eq found member
      rw [alone]
      simp [rewire, substitute, popsIn_eq entered, pops]

/-- A new taker joins those that a value has. -/
theorem Linked.liveConsumers_take (linked : graph.Linked) {value : ValueId} {node : ValueNode}
    (found : graph.value? value = some node) (instruction : Instruction) (frame : Nat) :
    (graph.take instruction frame value).liveConsumers value =
      graph.liveConsumers value ++ [graph.contexts.size] := by
  have joined : (graph.take instruction frame value).value? value =
      some { node with poppedBy := node.poppedBy ++ [graph.contexts.size] } := by
    rw [value?_take, found, Option.map_some, if_pos rfl]
  rw [linked.liveConsumers_eq found, liveConsumers, joined]
  refine List.filter_eq_self.mpr fun id member => ?_
  rcases List.mem_append.mp member with before | new
  · obtain ⟨context, entered, live, -⟩ := linked.consumed found before
    rw [isLive_of_context? (context?_take_of_some entered), live]
  · rw [List.mem_singleton.mp new, isLive, context?_take, if_pos rfl]
    rfl

end Graph

namespace Session

variable {session : Session} {instruction : Instruction} {value : ValueId}

/-- Retiring an instruction of the body, by the kind of the instruction. -/
theorem prepare_eq (member : instruction ∈ session.body.instructions) (value : ValueId) :
    session.prepare instruction.id value =
      if instruction.op.isDuplication then session.collapse instruction value
      else if instruction.op.hasSideEffect then session.discard instruction value
      else (.ok .delete, session) := by
  have present := Body.get?_eq_some_iff.mpr ⟨member, rfl⟩
  simp only [prepare, present]

/-- A duplication rejects what it does not own. -/
theorem collapse_of_not_owns (foreign : ¬session.graph.Owns instruction.id value) :
    ∃ breach, session.collapse instruction value =
      (.error (.contractViolation breach), session) := by
  obtain ⟨breach, own⟩ := Graph.ownContext_of_not_owns foreign
  exact ⟨breach, by simp [collapse, Graph.copies, own, bind, Except.bind]⟩

/-- Asked for a copy of its own, a duplication is to be deleted, is taken out, or is kept in its
place by a branch. -/
theorem collapse_of_owns (sound : session.Sound) (member : instruction ∈ session.body.instructions)
    (copies : instruction.op.isDuplication = true)
    (owns : session.graph.Owns instruction.id value) :
    (∃ decision next, session.collapse instruction value = (.ok decision, next)) ∨
      session.collapse instruction value =
        (.error (.branchTarget instruction.mnemonic instruction.pc), session) := by
  obtain ⟨id, context, entered, same, pushed⟩ := Graph.owns_iff.mp owns
  obtain ⟨place, live, found, alive, records⟩ := sound.covered member
  -- The context that pushed the value is the one that the body's instruction has.
  obtain rfl : id = place := sound.single entered found (same.trans records.same.symm)
  cases entered.symm.trans found
  obtain ⟨source, survivor, -, -, known⟩ :=
    exists_copies sound ⟨member, entered, alive, records⟩ copies pushed
  obtain ⟨rewired, done⟩ := sound.linked.exists_rewire survivor source
  simp only [collapse, known, done]
  split
  · exact .inl ⟨_, _, rfl⟩
  · split
    · exact .inr rfl
    · exact .inl ⟨_, _, rfl⟩

/-- A duplication, and only a duplication, rejects the values that it did not push, and every
rejection leaves the session as it was. Whoever pushed the value, an instruction without side
effects is to be deleted; and behind one with side effects an instruction is inserted. If the value
is one of the graph, the inserted instruction takes it, in addition to those who take it already.
If not, and only then, the work breaks off: the insertion has been made and is not reported. -/
theorem Reached.prepare_rejects_iff {held : List InstructionId} (reached : Reached held session)
    (member : instruction ∈ session.body.instructions) (value : ValueId) :
    ((∃ breach, (session.prepare instruction.id value).1 = .error (.contractViolation breach)) ↔
        instruction.op.isDuplication = true ∧ ¬session.graph.Owns instruction.id value) ∧
      ((∃ fault, (session.prepare instruction.id value).1 = .error fault ∧
          fault.isCrash = true) ↔
        instruction.op.hasSideEffect = true ∧ session.graph.value? value = none) ∧
      (∀ fault, (session.prepare instruction.id value).1 = .error fault → fault.isCrash = false →
        (session.prepare instruction.id value).2 = session) ∧
      (instruction.op.isDuplication = false → instruction.op.hasSideEffect = false →
        session.prepare instruction.id value = (.ok .delete, session)) ∧
      (instruction.op.hasSideEffect = true →
        ∃ verdict next front rear, session.prepare instruction.id value = (verdict, next) ∧
          session.body.instructions = front ++ instruction :: rear ∧
          next.body.instructions = front ++ instruction ::
            ⟨session.body.nextId, instruction.pc,
              discardOp (session.graph.content value).type⟩ :: rear ∧
          (session.graph.value? value = none →
            verdict = .error (.outOfRange value session.graph.values.size) ∧
              next.report = session.report) ∧
          (∀ node, session.graph.value? value = some node →
            verdict = .ok .handled ∧
              next.report = session.report.addInserted session.body.nextId ∧
              next.graph.liveConsumers value =
                session.graph.liveConsumers value ++ [session.graph.contexts.size])) := by
  have sound : session.Sound := reached.sound.1
  rw [prepare_eq member value]
  cases copies : instruction.op.isDuplication with
  | true =>
    have pure := hasSideEffect_of_isDuplication copies
    rw [if_pos rfl]
    by_cases owns : session.graph.Owns instruction.id value
    · rcases collapse_of_owns sound member copies owns with ⟨decision, next, accepted⟩ | refused
      · simp [accepted, owns, pure]
      · simp [refused, owns, pure, Fault.isCrash]
    · obtain ⟨breach, rejected⟩ := collapse_of_not_owns owns
      simp [rejected, owns, pure, Fault.isCrash]
  | false =>
    cases effectful : instruction.op.hasSideEffect with
    | false => simp
    | true =>
      obtain ⟨front, rear, split⟩ := List.append_of_mem member
      have spliced := Body.instructions_splice split (session.taker instruction value).op
      rw [if_neg Bool.false_ne_true, if_pos rfl, discard_eq member]
      cases found : session.graph.value? value with
      | none =>
        rw [if_neg (by simpa [Graph.value?] using found)]
        refine ⟨by simp, by simp [Fault.isCrash], by simp [Fault.isCrash], by simp, fun _ => ?_⟩
        exact ⟨_, _, front, rear, rfl, split, spliced, fun _ => ⟨rfl, rfl⟩, by simp⟩
      | some node =>
        rw [if_pos (Array.getElem?_eq_some_iff.mp found).1]
        refine ⟨by simp, by simp, by simp, by simp, fun _ => ?_⟩
        exact ⟨_, _, front, rear, rfl, split, spliced, by simp,
          fun _ _ => ⟨rfl, rfl, sound.linked.liveConsumers_take found _ _⟩⟩

/-- An object is stored, and then two copies of a number. -/
def cellAndCopies : Body :=
  .ofPlaced 3 [(.new "a/Cell", 0), (.store .reference 0, 3), (.ldc (.int 5), 4), (.dup, 5),
    (.store .int 1, 6), (.store .int 2, 7), (.ret none, 8)]

/-- The duplication rejects the object, which it did not push. -/
theorem prepare_rejects_cell :
    ∃ simulation, Simulation.run (.empty 0 3) cellAndCopies = .ok simulation ∧
      ∃ breach, ((start cellAndCopies simulation).prepare 3 0).1 =
        .error (.contractViolation breach) := by
  have path : ∃ simulation, Simulation.run (.empty 0 3) cellAndCopies = .ok simulation ∧
      ¬simulation.graph.Owns 3 0 := ⟨_, rfl, by decide⟩
  obtain ⟨simulation, ran, foreign⟩ := path
  have member : (⟨3, 5, .dup⟩ : Instruction) ∈ cellAndCopies.instructions := by decide
  have reached := Reached.start rfl ran
  exact ⟨simulation, ran, (reached.prepare_rejects_iff member 0).1.mpr ⟨rfl, foreign⟩⟩

/-- The allocation accepts the number, which it did not push either. What is inserted behind it to
take the number takes the object, and the body does not run any more. For a value that does not
exist the work breaks off, and the insertion has been made all the same. -/
theorem prepare_accepts_number :
    ∃ simulation, Simulation.run (.empty 0 3) cellAndCopies = .ok simulation ∧
      ¬simulation.graph.Owns 0 1 ∧
      ((start cellAndCopies simulation).prepare 0 1).1 = .ok .handled ∧
      Simulation.run (.empty 0 3) ((start cellAndCopies simulation).prepare 0 1).2.body =
        .error (.stackUnderflow "astore" 3) ∧
      ((start cellAndCopies simulation).prepare 0 9).1 = .error (.outOfRange 9 4) ∧
      ((start cellAndCopies simulation).prepare 0 9).2.body.instructions.length = 8 :=
  ⟨_, rfl, by decide, by decide +kernel, by decide +kernel, by decide +kernel,
    by decide +kernel⟩

end Session

end ClassTrim
