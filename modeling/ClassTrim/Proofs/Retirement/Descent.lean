import Mathlib.Data.List.Permutation
import ClassTrim.Proofs.Provenance.Origins
import ClassTrim.Proofs.Retirement.Moves
import ClassTrim.Proofs.Simulation.Execution

/-!
# Origins outlast removals

Executions leave a graph in which every copy can be followed back, whether they succeed or not, and
however many frames they take turns in. A removal edits the graph of a session in ways that keep
every origin, and it does so one edit at a time, so it makes no difference where it stops.
-/

namespace ClassTrim

namespace Graph.Traceable

variable {graph : Graph}

/-- A context that has not pushed anything yet may pop several values. -/
theorem recordPops (traceable : graph.Traceable) {id : ContextId} {context : Context}
    (entered : graph.context? id = some context) (idle : context.pushes = [])
    (values : List ValueId) :
    (values.foldl (fun graph value => graph.recordPop id value) graph).Traceable := by
  induction values generalizing graph context with
  | nil => exact traceable
  | cons value rest ih =>
    have still : (graph.recordPop id value).context? id =
        some { context with pops := context.pops ++ [value] } := by
      rw [context?_recordPop, if_pos rfl, entered, Option.map_some]
    exact ih ((alters_recordPop entered idle value).traceable traceable) still idle

end Graph.Traceable

namespace Simulation

variable {simulation : Simulation}

/-- Executions, successful or not, in frames that share one graph. A frame that goes on has values
of the graph on its stack; before the first execution there are none. -/
inductive Attained : Simulation → Prop
  | start {frame : Frame} (fresh : frame.stack = []) : Attained (.start frame)
  | execute {simulation : Simulation} (attained : Attained simulation)
      (instruction : Instruction) : Attained (simulation.execute instruction).2
  | resume {simulation : Simulation} (attained : Attained simulation) {frame : Frame}
      (known : ∀ value ∈ frame.stack, value < simulation.nextValue) :
      Attained ⟨frame, simulation.graph⟩

/-- Copies can be followed back, and the stack holds values of the graph. -/
structure Traceable (simulation : Simulation) : Prop where
  graph : simulation.graph.Traceable
  known : ∀ value ∈ simulation.frame.stack, value < simulation.nextValue

/-- A context that has popped something to copy may push several values if it is that of a
duplication, and one value otherwise. -/
theorem traceable_pushMany {id : ContextId} {context : Context} {contents : List Content}
    (traceable : simulation.graph.Traceable)
    (entered : simulation.graph.context? id = some context)
    (older : ∀ value ∈ context.pops, value < simulation.nextValue)
    (copying : context.duplication = true → context.pops ≠ [])
    (pairing : 2 ≤ context.pushes.length + contents.length → context.duplication = true) :
    (simulation.pushMany id contents).graph.Traceable := by
  induction contents generalizing simulation context with
  | nil => exact traceable
  | cons content rest ih =>
    have first : (simulation.push id content).graph.Traceable := by
      refine traceable.recordPush entered older copying (fun some => pairing ?_) content
      have already : 0 < context.pushes.length := List.length_pos_iff.mpr some
      rw [List.length_cons]
      omega
    have still : (simulation.push id content).graph.context? id =
        some { context with pushes := context.pushes ++ [simulation.graph.values.size] } := by
      rw [push, Graph.context?_recordPush, if_pos rfl, entered, Option.map_some]
    have grown : (simulation.push id content).nextValue = simulation.nextValue + 1 :=
      Array.size_push _
    refine ih first still ?_ copying ?_
    · intro value member
      rw [grown]
      exact Nat.lt_succ_of_lt (older value member)
    · intro two
      apply pairing
      simp only [List.length_append, List.length_singleton] at two
      rw [List.length_cons]
      omega

namespace Traceable

/-- Nothing has been copied before the first instruction. -/
theorem start {frame : Frame} (fresh : frame.stack = []) :
    (Simulation.start frame).Traceable where
  graph := .empty
  known := by simp [Simulation.start, fresh]

/-- A context that is opened has copied nothing yet. -/
theorem openContext (traceable : simulation.Traceable) (instruction : Instruction) :
    (simulation.openContext instruction).Traceable where
  graph := (Graph.alters_openContext simulation.graph instruction _).traceable traceable.graph
  known := traceable.known

/-- Popping the operands of an instruction keeps copies traceable. -/
theorem popped (traceable : simulation.Traceable) (instruction : Instruction) :
    (simulation.popped instruction).Traceable where
  graph := by
    have opened := traceable.openContext instruction
    exact opened.graph.recordPops (Graph.context?_openContext_size _ _ _) rfl _
  known := by
    intro value member
    have size : (simulation.popped instruction).nextValue = simulation.nextValue :=
      size_recordPops _ _ _
    rw [size]
    exact traceable.known value (List.mem_of_mem_drop member)

/-- An execution that completes copies what it popped, if it copies anything. -/
theorem completed (traceable : simulation.Traceable) {instruction : Instruction}
    (effect : simulation.Executed instruction (simulation.completed instruction)) :
    (simulation.completed instruction).Traceable where
  graph := by
    have operands : (simulation.operands instruction).length = instruction.op.effect.pops := by
      rw [Simulation.operands, List.length_take, Nat.min_eq_left effect.enough]
    have count : (results instruction.op simulation.frame.locals
        ((simulation.operands instruction).map simulation.graph.content)).length =
        instruction.op.effect.pushes :=
      length_results _ _ _ (by rw [List.length_map, operands])
    let stored := (simulation.popped instruction).storeResult instruction.op
      (simulation.operands instruction)
    have graph : stored.graph = (simulation.popped instruction).graph := graph_storeResult _ _ _
    have size : stored.nextValue = simulation.nextValue := by
      rw [nextValue, graph]
      exact size_recordPops _ _ _
    have entered : stored.graph.context? simulation.nextContext =
        some { Context.opened instruction simulation.frame.id with
          pops := simulation.operands instruction } := by
      rw [graph, Graph.context?, Simulation.popped, contexts_recordPops, Array.getElem?_modify]
      simp [Graph.openContext, nextContext, Context.opened]
    -- A duplication pops the value that it copies, and nothing else pushes more than one value.
    refine traceable_pushMany (graph ▸ (traceable.popped instruction).graph) entered ?_ ?_ ?_
    · intro value member
      rw [size]
      exact traceable.known value (List.mem_of_mem_take member)
    · intro copies
      rw [← List.length_pos_iff, operands, Op.effect_of_isDuplication copies]
      exact Nat.one_pos
    · intro two
      have two : 2 ≤ instruction.op.effect.pushes := by simpa [Context.opened, count] using two
      by_contra plain
      exact absurd (Op.pushes_le_one (Bool.eq_false_iff.mpr plain)) (Nat.not_le_of_lt two)
  known := by
    intro value member
    rw [effect.stack] at member
    rw [effect.size]
    rcases List.mem_append.mp member with made | below
    · have bound := List.mem_range'_1.mp (List.mem_reverse.mp made)
      exact bound.2
    · exact Nat.lt_add_right _ (traceable.known value (List.mem_of_mem_drop below))

/-- An instruction keeps copies traceable, whether it succeeds or fails. -/
theorem execute (traceable : simulation.Traceable) (instruction : Instruction) :
    (simulation.execute instruction).2.Traceable := by
  cases done : simulation.execute instruction with
  | mk verdict next =>
    cases verdict with
    | ok id =>
      have effect := executed_of_ok done
      rw [execute_eq_completed _ _ effect.form effect.wide effect.enough] at done
      cases done
      exact traceable.completed effect
    | error fault =>
      -- A fault is met before anything happens, with an open context, or on an empty stack.
      rw [execute_eq] at done
      split at done
      · cases done
        exact traceable
      · split at done
        · cases done
          exact traceable.openContext instruction
        · split at done
          · cases done
          · cases done
            exact traceable.popped instruction

end Traceable

/-- Copies can be followed back in whatever executions leave behind. -/
theorem Attained.traceable (attained : simulation.Attained) : simulation.Traceable := by
  induction attained with
  | start fresh => exact .start fresh
  | execute _ instruction ih => exact ih.execute instruction
  | resume _ known ih => exact ⟨ih.graph, known⟩

/-- A run that goes on from such an execution is one more of its kind. -/
theorem Attained.runInstructions {instructions : List Instruction} {last : Simulation}
    (attained : simulation.Attained)
    (ran : simulation.runInstructions instructions = .ok last) : last.Attained := by
  induction instructions generalizing simulation with
  | nil =>
    cases ran
    exact attained
  | cons instruction rest ih =>
    simp only [Simulation.runInstructions] at ran
    split at ran
    · cases ran
    · next next executed =>
      have executed : (simulation.execute instruction).2 = next := by rw [executed]
      exact ih (executed ▸ attained.execute instruction) ran

end Simulation

namespace Session

variable {session next : Session}

/-- Sessions over what executions left behind, and what removals make of them, successful or not.
Other sessions may go on where one has stopped, with any body. -/
inductive Arisen : Session → Prop
  | start {simulation : Simulation} (attained : simulation.Attained) (body : Body) :
      Arisen (.start body simulation)
  | remove {session : Session} (arisen : Arisen session) (target : InstructionId) :
      Arisen (session.remove target).2
  | renew {session : Session} (arisen : Arisen session) (body : Body) :
      Arisen (.start body session.simulation)

/-- Every edit keeps all origins. -/
theorem Move.labelled {label : ValueId → ValueId} (move : session.Move next)
    (labelled : session.graph.Labelled label) : next.graph.Labelled label := by
  cases move with
  | delete => exact labelled.detachAll _
  | collapse _ _ known done =>
    -- The takers of the surviving copy pop its source instead, which has the same origin.
    obtain ⟨older, same⟩ := labelled.traceable.lt_and_origin_eq_of_copies known
    rw [labelled.origin] at same
    exact (labelled.rewire older same done).alters (Graph.alters_detach _ _)
  | discard => exact labelled.take _ _ _

/-- A removal moves no origin, whether it succeeds or fails. -/
theorem labelled_remove {label : ValueId → ValueId} (labelled : session.graph.Labelled label)
    (target : InstructionId) : (session.remove target).2.graph.Labelled label := by
  obtain ⟨settled, kept, ⟨fault, failed⟩ | succeeded⟩ :=
    exists_settled_remove (motive := fun session => session.graph.Labelled label) target
      Move.labelled labelled
  · rw [failed]
    exact kept
  · rw [succeeded]
    exact kept

/-- Copies can be followed back in whatever removals leave behind. -/
theorem Arisen.traceable (arisen : Arisen session) : session.graph.Traceable := by
  induction arisen with
  | start attained => exact attained.traceable.graph
  | remove _ target ih => exact (labelled_remove ⟨ih, rfl⟩ target).traceable
  | renew _ _ ih => exact ih

/-- Origins are well founded, and no removal changes one. In every graph that executions and
removals lead to, a context pops what is older than all that it pushes; the origin of a value is
where the way back over duplications ends, and it is its own origin; and after one more removal,
whatever its outcome, every value, dead or alive, has the origin that it had. -/
theorem Arisen.origins_stable (arisen : Arisen session) :
    (∀ id context, session.graph.context? id = some context →
        ∀ popped ∈ context.pops, ∀ pushed ∈ context.pushes, popped < pushed) ∧
      (∀ value node, session.graph.value? value = some node →
        ∀ last, session.graph.Descends value last ↔ session.graph.origin value = last) ∧
      (∀ value, session.graph.origin (session.graph.origin value) = session.graph.origin value) ∧
      ∀ target value,
        (session.remove target).2.graph.origin value = session.graph.origin value := by
  have traceable := arisen.traceable
  refine ⟨fun id context => traceable.ordered, fun value node found last => ?_, ?_, ?_⟩
  · exact traceable.descends_iff found
  · exact traceable.origin_origin
  · intro target value
    exact congrFun (labelled_remove ⟨traceable, rfl⟩ target).origin value

/-- A constant is copied, and one of the copies is copied again. Three copies are stored, all in one
slot. -/
def twofold : Body :=
  .ofPlaced 3 [(.ldc (.int 5), 0), (.dup, 2), (.dup, 3), (.store .int 0, 4), (.store .int 0, 5),
    (.store .int 0, 6), (.ret none, 7)]

/-- Removing the last store takes out the first duplication, and the second one copies the constant
itself. Its copies come from the constant, as before. -/
theorem origins_stable_twofold :
    ∃ simulation, Simulation.run (.empty 0 3) twofold = .ok simulation ∧
      ((start twofold simulation).remove 5).2.body.instructions.map Instruction.id =
        [0, 2, 3, 4, 6] ∧
      (start twofold simulation).graph.Descends 4 0 ∧
      ((start twofold simulation).remove 5).2.graph.origin 4 = 0 := by
  have path : ∃ simulation, Simulation.run (.empty 0 3) twofold = .ok simulation ∧
      ((start twofold simulation).remove 5).2.body.instructions.map Instruction.id =
        [0, 2, 3, 4, 6] ∧
      (∃ node, simulation.graph.value? 4 = some node) ∧ simulation.graph.origin 4 = 0 :=
    ⟨_, rfl, by cbv, ⟨_, rfl⟩, rfl⟩
  obtain ⟨simulation, ran, left, ⟨node, found⟩, origin⟩ := path
  have attained : simulation.Attained := .runInstructions (.start rfl) ran
  obtain ⟨-, descends, -, stable⟩ := (Arisen.start attained twofold).origins_stable
  exact ⟨simulation, ran, left, (descends 4 node found 0).mpr origin, (stable 5 4).trans origin⟩

end Session

end ClassTrim
