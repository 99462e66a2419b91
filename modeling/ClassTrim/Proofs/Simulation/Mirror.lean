import ClassTrim.Proofs.Simulation.Execution

/-!
# Stack and graph mirror each other

Every push and every pop changes the stack and the graph together. So the stack holds
exactly the values that nobody has popped, each once, and the younger a value is the
higher it lies: identities are handed out in increasing order, and only the top of the
stack can leave it.

This holds after every single push and pop. A faulty execution, which leaves its
context behind half-finished, does not break it either.
-/

namespace ClassTrim.Simulation

/-- The stack holds the values that nobody has popped, the younger above the older. -/
structure Mirrored (simulation : Simulation) : Prop where
  linked : simulation.graph.Linked
  alive : ∀ {id context}, simulation.graph.context? id = some context → context.live = true
  waiting : ∀ value, value ∈ simulation.frame.stack ↔
    ∃ node, simulation.graph.value? value = some node ∧ node.poppedBy = []
  ascending : simulation.frame.stack.Pairwise (· > ·)

namespace Mirrored

variable {simulation : Simulation}

/-- A frame with an empty stack mirrors an empty graph. -/
theorem start (frame : Frame) (fresh : frame.stack = []) : (Simulation.start frame).Mirrored where
  linked := Graph.Linked.empty
  alive := by simp [Simulation.start, Graph.empty, Graph.context?]
  waiting := by simp [Simulation.start, fresh, Graph.empty, Graph.value?]
  ascending := by simp [Simulation.start, fresh]

/-- What is on the stack was made before. -/
theorem lt_nextValue (mirrored : simulation.Mirrored) {value : ValueId}
    (member : value ∈ simulation.frame.stack) : value < simulation.nextValue := by
  obtain ⟨node, found, _⟩ := (mirrored.waiting value).mp member
  exact Graph.lt_of_value? found

/-- All values are live as long as nothing is detached. -/
theorem live (mirrored : simulation.Mirrored) {value : ValueId} {node : ValueNode}
    (found : simulation.graph.value? value = some node) : node.live = true := by
  obtain ⟨context, entered, _, same⟩ := mirrored.linked.produced found
  rw [same, mirrored.alive entered]

/-- A context that is opened leaves stack and values as they were. -/
theorem openContext (mirrored : simulation.Mirrored) (instruction : Instruction) :
    (simulation.openContext instruction).Mirrored where
  linked := mirrored.linked.openContext instruction _
  alive := by
    intro id context entered
    rw [Simulation.openContext, Graph.context?_openContext] at entered
    split at entered
    · cases entered
      rfl
    · exact mirrored.alive entered
  waiting := mirrored.waiting
  ascending := mirrored.ascending

/-- Writing a slot concerns neither the stack nor the graph. -/
theorem storeResult (mirrored : simulation.Mirrored) (op : Op) (popped : List ValueId) :
    (simulation.storeResult op popped).Mirrored where
  linked := graph_storeResult simulation op popped ▸ mirrored.linked
  alive := by
    rw [graph_storeResult]
    exact mirrored.alive
  waiting := by
    rw [graph_storeResult, stack_storeResult]
    exact mirrored.waiting
  ascending := stack_storeResult simulation op popped ▸ mirrored.ascending

/-- The value that leaves the stack gets its consumer at the same time. -/
theorem pop (mirrored : simulation.Mirrored) {id : ContextId} {value : ValueId}
    {next : Simulation} (present : id < simulation.graph.contexts.size)
    (popped : simulation.pop? id = some (value, next)) :
    next.Mirrored ∧ next.graph.contexts.size = simulation.graph.contexts.size := by
  simp only [pop?] at popped
  split at popped
  · cases popped
  · next top rest stack =>
    cases popped
    obtain ⟨context, entered⟩ : ∃ context, simulation.graph.context? id = some context :=
      ⟨simulation.graph.contexts[id], Array.getElem?_eq_getElem present⟩
    obtain ⟨node, found, free⟩ := (mirrored.waiting value).mp (stack ▸ List.mem_cons_self)
    have sorted := List.pairwise_cons.mp (stack ▸ mirrored.ascending)
    refine ⟨⟨?_, ?_, ?_, sorted.2⟩, Array.size_modify⟩
    · exact mirrored.linked.recordPop entered (mirrored.alive entered) found
        (mirrored.live found) free
    · intro other entry looked
      rw [Graph.context?_recordPop] at looked
      split at looked
      · next same =>
        have live := mirrored.alive entered
        rw [← same, entered] at looked
        cases looked
        exact live
      · exact mirrored.alive looked
    · intro other
      have before : other ∈ simulation.frame.stack ↔ other = value ∨ other ∈ rest := by
        rw [stack, List.mem_cons]
      simp only [Graph.value?_recordPop]
      by_cases same : value = other
      · subst same
        have gone : value ∉ rest := fun member => Nat.lt_irrefl _ (sorted.1 _ member)
        simp [gone, found]
      · have old := mirrored.waiting other
        rw [before] at old
        simpa [same, Ne.symm same] using old

/-- The value that is pushed is younger than all others, and nobody has popped it. -/
theorem push (mirrored : simulation.Mirrored) {id : ContextId}
    (present : id < simulation.graph.contexts.size) (content : Content) :
    (simulation.push id content).Mirrored ∧
      (simulation.push id content).graph.contexts.size = simulation.graph.contexts.size := by
  obtain ⟨context, entered⟩ : ∃ context, simulation.graph.context? id = some context :=
    ⟨simulation.graph.contexts[id], Array.getElem?_eq_getElem present⟩
  refine ⟨⟨?_, ?_, ?_, ?_⟩, Array.size_modify⟩
  · exact mirrored.linked.recordPush entered (mirrored.alive entered) content
  · intro other entry looked
    rw [Simulation.push, Graph.context?_recordPush] at looked
    split at looked
    · next same =>
      have live := mirrored.alive entered
      rw [← same, entered] at looked
      cases looked
      exact live
    · exact mirrored.alive looked
  · intro value
    simp only [Simulation.push, Graph.value?_recordPush, List.mem_cons]
    by_cases last : value = simulation.graph.values.size
    · simp [last, nextValue]
    · have old := mirrored.waiting value
      simpa [last, nextValue] using old
  · refine List.pairwise_cons.mpr ⟨?_, mirrored.ascending⟩
    intro value member
    exact mirrored.lt_nextValue member

/-- Any number of values can be popped. -/
theorem without (mirrored : simulation.Mirrored) {id : ContextId}
    (present : id < simulation.graph.contexts.size) (count : Nat) :
    (simulation.without id count).Mirrored ∧
      (simulation.without id count).graph.contexts.size = simulation.graph.contexts.size := by
  induction count generalizing simulation with
  | zero => exact ⟨mirrored, rfl⟩
  | succ count ih =>
    cases stack : simulation.frame.stack with
    | nil =>
      rw [without_nil stack]
      exact ⟨mirrored, rfl⟩
    | cons value rest =>
      have popped : simulation.pop? id = some (value, simulation.without id 1) := by
        simp [pop?, Simulation.without, stack]
      obtain ⟨next, size⟩ := mirrored.pop present popped
      obtain ⟨last, same⟩ := ih next (size ▸ present)
      rw [without_succ stack] at last same
      exact ⟨last, same.trans size⟩

/-- Pushing values puts each of them on the stack and into the graph. -/
theorem pushMany (mirrored : simulation.Mirrored) {id : ContextId}
    (present : id < simulation.graph.contexts.size) (contents : List Content) :
    (simulation.pushMany id contents).Mirrored := by
  induction contents generalizing simulation with
  | nil => exact mirrored
  | cons content rest ih =>
    obtain ⟨next, size⟩ := mirrored.push present content
    exact ih next (size ▸ present)

/-- An execution keeps stack and graph together, whether it succeeds or not. -/
theorem execute (mirrored : simulation.Mirrored) (instruction : Instruction) :
    (simulation.execute instruction).2.Mirrored := by
  have opened := mirrored.openContext instruction
  have present : simulation.nextContext <
      (simulation.openContext instruction).graph.contexts.size := by
    simp [Simulation.openContext, Graph.openContext, nextContext]
  have popped : (simulation.popped instruction).Mirrored ∧
      (simulation.popped instruction).graph.contexts.size =
        (simulation.openContext instruction).graph.contexts.size :=
    opened.without present instruction.op.effect.pops
  rw [execute_eq]
  split
  · exact mirrored
  · split
    · exact opened
    · split
      · refine (popped.1.storeResult _ _).pushMany ?_ _
        rw [graph_storeResult, popped.2]
        exact present
      · exact popped.1

end Mirrored

end ClassTrim.Simulation
