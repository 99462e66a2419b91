import Mathlib.Data.List.Sort
import ClassTrim.Proofs.Simulation.Mirror

/-!
# Simulations driven by hand

An instruction can be executed as a whole. It can also be taken through by hand: a step is begun
for it, and on behalf of that step values are popped and pushed and slots are written, in any
number and in any order, whether or not the instruction would do so. The step ends when another
one begins.

However a simulation is driven, stack and graph mirror each other at every point. Since only the
top of the stack can leave it and every new value is younger than all others, the stack is what
is left of all values, in the order of their making, when the popped ones are taken out.
-/

namespace ClassTrim.Simulation

/-- What can be done to a simulation. -/
inductive Action where
  /-- Executes an instruction, with or without success. -/
  | execute (instruction : Instruction)
  /-- Begins a step for an instruction. -/
  | begin (instruction : Instruction)
  /-- Pops the top of the stack on behalf of the step. -/
  | pop
  /-- Pushes a value on behalf of the step. -/
  | push (content : Content)
  /-- Writes a local slot. -/
  | store (index : Nat) (slot : Slot)

/-- A simulation, and the context of the step that is under way in it. -/
structure Drive where
  simulation : Simulation
  step : Option ContextId

namespace Drive

/-- Nothing has happened, and no step is under way. -/
def start (frame : Frame) : Drive :=
  ⟨.start frame, none⟩

/-- Takes one action. Without a step there is nothing to pop or to push for, and an empty stack
stays as it is. -/
def act (drive : Drive) : Action → Drive
  | .execute instruction => ⟨(drive.simulation.execute instruction).2, none⟩
  | .begin instruction =>
    ⟨drive.simulation.openContext instruction, some drive.simulation.nextContext⟩
  | .pop =>
    match drive.step.bind drive.simulation.pop? with
    | none => drive
    | some (_, next) => { drive with simulation := next }
  | .push content =>
    match drive.step with
    | none => drive
    | some context => { drive with simulation := drive.simulation.push context content }
  | .store index slot => { drive with simulation := drive.simulation.store index slot }

/-- Takes actions in order. -/
def run (drive : Drive) (actions : List Action) : Drive :=
  actions.foldl act drive

/-- Stack and graph mirror each other, and the step that is under way has its context. -/
structure Mirrored (drive : Drive) : Prop where
  mirrored : drive.simulation.Mirrored
  present : ∀ context ∈ drive.step, context < drive.simulation.graph.contexts.size

/-- Every action keeps stack and graph mirrors of each other. -/
theorem Mirrored.act {drive : Drive} (held : drive.Mirrored) (action : Action) :
    (drive.act action).Mirrored := by
  obtain ⟨mirrored, present⟩ := held
  cases action with
  | execute instruction => exact ⟨mirrored.execute instruction, nofun⟩
  | begin instruction =>
    refine ⟨mirrored.openContext instruction, ?_⟩
    intro context under
    cases under
    simp [Drive.act, openContext, Graph.openContext, nextContext]
  | pop =>
    simp only [Drive.act]
    split
    · exact ⟨mirrored, present⟩
    · next value next popped =>
      obtain ⟨context, under, taken⟩ := Option.bind_eq_some_iff.mp popped
      obtain ⟨kept, size⟩ := mirrored.pop (present context under) taken
      exact ⟨kept, size ▸ present⟩
  | push content =>
    simp only [Drive.act]
    split
    · exact ⟨mirrored, present⟩
    · next context under =>
      obtain ⟨kept, size⟩ := mirrored.push (present context under) content
      exact ⟨kept, size ▸ present⟩
  | store index slot =>
    exact ⟨⟨mirrored.linked, mirrored.alive, mirrored.waiting, mirrored.ascending⟩, present⟩

/-- Any actions keep stack and graph mirrors of each other. -/
theorem Mirrored.run {drive : Drive} (held : drive.Mirrored) (actions : List Action) :
    (drive.run actions).Mirrored := by
  induction actions generalizing drive with
  | nil => exact held
  | cons action rest ih => exact ih (held.act action)

end Drive

/-- The simulation that actions lead to from a frame and an empty graph. -/
def driven (frame : Frame) (actions : List Action) : Simulation :=
  ((Drive.start frame).run actions).simulation

/-- The values that nobody has popped, in the order of their making. -/
def unpopped (simulation : Simulation) : List ValueId :=
  (List.range simulation.nextValue).filter fun value =>
    (simulation.graph.value? value).any (·.poppedBy.isEmpty)

namespace Mirrored

variable {simulation : Simulation}

/-- A value lies on the stack once and has no consumer, or has left it for its only consumer. -/
theorem count_or (mirrored : simulation.Mirrored) {value : ValueId} {node : ValueNode}
    (found : simulation.graph.value? value = some node) :
    simulation.frame.stack.count value = 1 ∧ node.poppedBy = [] ∨
      value ∉ simulation.frame.stack ∧ ∃ consumer, node.poppedBy = [consumer] := by
  have onStack : value ∈ simulation.frame.stack ↔ node.poppedBy = [] := by
    simp [mirrored.waiting, found]
  cases consumers : node.poppedBy with
  | nil =>
    have distinct : simulation.frame.stack.Nodup := mirrored.ascending.imp Nat.ne_of_gt
    exact .inl ⟨List.count_eq_one_of_mem distinct (onStack.mpr consumers), rfl⟩
  | cons consumer rest =>
    have single : node.poppedBy = [consumer] :=
      mirrored.linked.poppedBy_eq found (consumers ▸ List.mem_cons_self)
    refine .inr ⟨?_, consumer, consumers ▸ single⟩
    rw [onStack, consumers]
    exact List.cons_ne_nil consumer rest

/-- Bottom to top, the stack holds the values that nobody has popped. Both lists ascend and have
the same members. -/
theorem reverse_stack_eq (mirrored : simulation.Mirrored) :
    simulation.frame.stack.reverse = simulation.unpopped := by
  have rising : simulation.frame.stack.reverse.Pairwise (· < ·) :=
    List.pairwise_reverse.mpr mirrored.ascending
  have counted : simulation.unpopped.Pairwise (· < ·) := List.pairwise_lt_range.filter _
  refine rising.eq_of_mem_iff counted fun value => ?_
  rw [List.mem_reverse, mirrored.waiting, unpopped, List.mem_filter, List.mem_range,
    Option.any_eq_true]
  constructor
  · rintro ⟨node, found, free⟩
    exact ⟨Graph.lt_of_value? found, node, found, List.isEmpty_iff.mpr free⟩
  · rintro ⟨_, node, found, free⟩
    exact ⟨node, found, List.isEmpty_iff.mp free⟩

end Mirrored

/-- Stack and graph mirror each other at every point of every run, however it is driven. The graph
passes its check; every value is on the stack once and unconsumed, or off the stack and consumed
once; and the stack ascends from bottom to top and is made of the values that nobody popped. -/
theorem stack_mirrors_graph (frame : Frame) (fresh : frame.stack = []) (actions : List Action) :
    (driven frame actions).graph.check = .ok () ∧
      (∀ value node, (driven frame actions).graph.value? value = some node →
        (driven frame actions).frame.stack.count value = 1 ∧ node.poppedBy = [] ∨
          value ∉ (driven frame actions).frame.stack ∧ ∃ consumer, node.poppedBy = [consumer]) ∧
      (driven frame actions).frame.stack.reverse.Pairwise (· < ·) ∧
      (driven frame actions).frame.stack.reverse = (driven frame actions).unpopped := by
  have opening : (Drive.start frame).Mirrored := ⟨.start frame fresh, nofun⟩
  have mirrored : (driven frame actions).Mirrored := (opening.run actions).mirrored
  exact ⟨mirrored.linked.check_eq_ok, fun value node found => mirrored.count_or found,
    List.pairwise_reverse.mpr mirrored.ascending, mirrored.reverse_stack_eq⟩

/-- Two constants are pushed, the upper one is popped, and a step by hand pops the other one and
pushes two. The next execution finds a narrow operand and fails. -/
def handiwork : List Action :=
  [.execute ⟨0, 0, .ldc (.int 1)⟩, .execute ⟨1, 1, .ldc (.int 2)⟩, .execute ⟨2, 2, .pop⟩,
    .begin ⟨3, 3, .dup⟩, .pop, .pop, .push (.ofConstant (.int 1)), .push (.ofConstant (.int 5)),
    .execute ⟨4, 4, .pop2⟩, .execute ⟨5, 5, .arith .add .int⟩, .pop]

/-- Of five values, the last is on the stack and the others have been popped. -/
theorem stack_mirrors_graph_handiwork :
    (driven (.empty 0 1) handiwork).nextValue = 5 ∧
      (driven (.empty 0 1) handiwork).frame.stack = [4] ∧
      (driven (.empty 0 1) handiwork).graph.check = .ok () ∧
      (driven (.empty 0 1) handiwork).frame.stack.reverse =
        (driven (.empty 0 1) handiwork).unpopped := by
  obtain ⟨checked, -, -, ascending⟩ := stack_mirrors_graph (.empty 0 1) rfl handiwork
  exact ⟨rfl, rfl, checked, ascending⟩

end ClassTrim.Simulation
