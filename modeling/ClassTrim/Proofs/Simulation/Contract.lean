import Mathlib.Data.List.Sort
import ClassTrim.Proofs.Simulation.Driven
import ClassTrim.Proofs.Simulation.Record

/-!
# The contract of an execution

What an operation declares about the stack and what its execution does are two separate readings of
the operation: the one is a table of numbers, the other pops and pushes kind by kind. They agree.
An execution succeeds exactly if the operation exists for its operands, if the stack holds as many
values as the operation declares that it pops, and if the top is wide where only wide values can be
moved. It then adds one context, which popped and pushed what was declared.

The three requirements are checked in an order of their own. An operation that does not exist is
refused whatever lies on the stack. A narrow top is refused before anything is popped; an empty
stack has no top, so it is met as a stack that holds too little.
-/

namespace ClassTrim

/-- A shift or a bitwise operation on floating-point operands. -/
def Op.IsFormless (op : Op) : Prop :=
  ∃ operation kind, op = .arith operation kind ∧
    operation ∈ [ArithOp.shl, .shr, .ushr, .and, .or, .xor] ∧ kind ∈ [NumericKind.float, .double]

/-- An operation that moves a wide value as a whole. -/
def Op.MovesWide (op : Op) : Prop :=
  op = .dup2 ∨ op = .pop2

/-- The operations that ask for a wide top are those that move a wide value as a whole. -/
theorem Op.needsWideTop_iff {op : Op} : op.needsWideTop = true ↔ op.MovesWide := by
  cases op <;> simp [needsWideTop, MovesWide]

namespace Simulation

variable {before after : Simulation} {instruction : Instruction} {fault : Fault} {id : ContextId}

/-- The simulations that executions and steps by hand lead to from an empty stack and an empty
graph. -/
def Reachable (simulation : Simulation) : Prop :=
  ∃ frame actions, frame.stack = [] ∧ driven frame actions = simulation

/-- Stack and graph mirror each other wherever executions and steps by hand lead. -/
theorem Reachable.mirrored (reachable : before.Reachable) : before.Mirrored := by
  obtain ⟨frame, actions, fresh, rfl⟩ := reachable
  have opening : (Drive.start frame).Mirrored := ⟨.start frame fresh, nofun⟩
  exact (opening.run actions).mirrored

/-- The top of the stack is a value that fills two slots, or one, as `wide` tells. -/
def TopIs (simulation : Simulation) (wide : Bool) : Prop :=
  ∃ top node, simulation.frame.stack.head? = some top ∧
    simulation.graph.value? top = some node ∧ node.content.type.isWide = wide

/-- The form of an instruction is at fault if it shifts or combines the bits of floating-point
operands. -/
theorem formFault?_eq_some_iff :
    formFault? instruction = some fault ↔
      ∃ operation kind, instruction.op = .arith operation kind ∧
        operation ∈ [ArithOp.shl, .shr, .ushr, .and, .or, .xor] ∧
        kind ∈ [NumericKind.float, .double] ∧
        fault = .unsupported (.noFloatingForm operation kind instruction.pc) := by
  cases op : instruction.op with
  | arith operation kind =>
    cases operation <;> cases kind <;>
      simp [formFault?, op, ArithOp.isIntegralOnly, NumericKind.isFloating, eq_comm]
  | _ => simp [formFault?, op]

/-- An instruction has a form unless it shifts or combines the bits of floating-point operands. -/
theorem formFault?_eq_none_iff : formFault? instruction = none ↔ ¬instruction.op.IsFormless := by
  rw [Option.eq_none_iff_forall_ne_some]
  constructor
  · rintro none ⟨operation, kind, op, integral, floating⟩
    exact none _ (formFault?_eq_some_iff.mpr ⟨operation, kind, op, integral, floating, rfl⟩)
  · intro formed fault found
    obtain ⟨operation, kind, op, integral, floating, _⟩ := formFault?_eq_some_iff.mp found
    exact formed ⟨operation, kind, op, integral, floating⟩

/-- Whatever lies on the stack is known to the graph, so the top is narrow or wide by its node. -/
theorem Mirrored.hasNarrowTop_iff (mirrored : before.Mirrored) :
    before.hasNarrowTop = true ↔ before.TopIs false := by
  cases stack : before.frame.stack with
  | nil => simp [hasNarrowTop, TopIs, stack]
  | cons top rest =>
    obtain ⟨node, found, _⟩ := (mirrored.waiting top).mp (stack ▸ List.mem_cons_self)
    simp [hasNarrowTop, TopIs, stack, Graph.content, found]

/-- The top of the stack is wide if there is one and it is not narrow. -/
theorem Mirrored.topIs_iff (mirrored : before.Mirrored) :
    before.TopIs true ↔ ¬before.TopIs false ∧ before.frame.stack ≠ [] := by
  cases stack : before.frame.stack with
  | nil => simp [TopIs, stack]
  | cons top rest =>
    obtain ⟨node, found, _⟩ := (mirrored.waiting top).mp (stack ▸ List.mem_cons_self)
    simp [TopIs, stack, found]

/-- The three checks of an execution, in their order. -/
theorem execute_fst (before : Simulation) (instruction : Instruction) :
    (before.execute instruction).1 =
      match formFault? instruction with
      | some fault => .error fault
      | none =>
        if instruction.op.needsWideTop && before.hasNarrowTop then
          .error (.unsupported (.narrowOperand instruction.mnemonic instruction.pc))
        else if instruction.op.effect.pops ≤ before.frame.depth then .ok before.nextContext
        else .error (.stackUnderflow instruction.mnemonic instruction.pc) := by
  rw [execute_eq, Frame.depth]
  cases formFault? instruction with
  | some fault => rfl
  | none =>
    dsimp only
    split
    · rfl
    · split <;> rfl

/-- The test for a narrow top fails where there is no value or a wide one. -/
theorem Mirrored.hasNarrowTop_eq_false_iff (mirrored : before.Mirrored) :
    before.hasNarrowTop = false ↔ ¬before.TopIs false := by
  rw [Bool.eq_false_iff, Ne, mirrored.hasNarrowTop_iff]

/-- On a stack that is deep enough, a top that is not narrow is wide. -/
theorem Mirrored.topIs_of_movesWide (mirrored : before.Mirrored)
    (moves : instruction.op.MovesWide)
    (enough : instruction.op.effect.pops ≤ before.frame.depth) :
    before.TopIs true ↔ before.hasNarrowTop = false := by
  rw [pops_of_needsWideTop (Op.needsWideTop_iff.mpr moves)] at enough
  have inhabited : before.frame.stack ≠ [] := List.length_pos_iff.mp enough
  rw [mirrored.topIs_iff, mirrored.hasNarrowTop_eq_false_iff]
  exact and_iff_left inhabited

/-- An execution succeeds if the operation exists, the stack is deep enough, and the top is wide
where that is asked for. -/
theorem Mirrored.execute_eq_ok_iff (mirrored : before.Mirrored) :
    (before.execute instruction).1 = .ok id ↔
      id = before.nextContext ∧ ¬instruction.op.IsFormless ∧
        instruction.op.effect.pops ≤ before.frame.depth ∧
        (instruction.op.MovesWide → before.TopIs true) := by
  rw [execute_fst, ← formFault?_eq_none_iff]
  cases formFault? instruction with
  | some fault => simp
  | none =>
    by_cases enough : instruction.op.effect.pops ≤ before.frame.depth
    · by_cases moves : instruction.op.MovesWide
      · rw [mirrored.topIs_of_movesWide moves enough]
        cases before.hasNarrowTop <;> simp [Op.needsWideTop_iff.mpr moves, enough, moves, eq_comm]
      · have unneeded : instruction.op.needsWideTop = false := by
          rw [Bool.eq_false_iff, Ne, Op.needsWideTop_iff]
          exact moves
        simp [unneeded, enough, moves, eq_comm]
    · cases instruction.op.needsWideTop && before.hasNarrowTop <;> simp [enough]

/-- The fault of an execution that fails. -/
theorem Mirrored.fault_of_execute (mirrored : before.Mirrored)
    (failed : (before.execute instruction).1 = .error fault) :
    (∀ operation kind, instruction.op = .arith operation kind → instruction.op.IsFormless →
        fault = .unsupported (.noFloatingForm operation kind instruction.pc)) ∧
      (instruction.op.MovesWide → before.TopIs false →
        fault = .unsupported (.narrowOperand instruction.mnemonic instruction.pc)) ∧
      (¬instruction.op.IsFormless → ¬(instruction.op.MovesWide ∧ before.TopIs false) →
        fault = .stackUnderflow instruction.mnemonic instruction.pc) := by
  rw [execute_fst] at failed
  refine ⟨?_, ?_, ?_⟩
  · rintro operation kind op ⟨shift, type, same, integral, floating⟩
    obtain ⟨rfl, rfl⟩ : operation = shift ∧ kind = type := by simpa [op] using same
    rw [formFault?_eq_some_iff.mpr ⟨operation, kind, op, integral, floating, rfl⟩] at failed
    exact (Except.error.inj failed).symm
  · intro moves narrow
    have formed : ¬instruction.op.IsFormless := by
      rintro ⟨operation, kind, op, _⟩
      rcases moves with isDup | isPop
      · cases op.symm.trans isDup
      · cases op.symm.trans isPop
    rw [formFault?_eq_none_iff.mpr formed, Op.needsWideTop_iff.mpr moves,
      mirrored.hasNarrowTop_iff.mpr narrow] at failed
    exact (Except.error.inj failed).symm
  · intro formed unhindered
    have passed : (instruction.op.needsWideTop && before.hasNarrowTop) = false := by
      rw [Bool.eq_false_iff, Ne, Bool.and_eq_true, Op.needsWideTop_iff, mirrored.hasNarrowTop_iff]
      exact unhindered
    rw [formFault?_eq_none_iff.mpr formed] at failed
    simp only [passed, Bool.false_eq_true, if_false] at failed
    split at failed
    · cases failed
    · exact (Except.error.inj failed).symm

/-- What a successful execution leaves behind: one more context, which popped the top of the stack
and pushed values that did not exist before, and a stack on which these values stand in the place
of those that were popped. -/
structure Performed (before : Simulation) (instruction : Instruction) (id : ContextId)
    (after : Simulation) (context : Context) : Prop where
  id_eq : id = before.graph.contexts.size
  added : after.graph.contexts = before.graph.contexts.push context
  instruction_eq : context.instruction = instruction.id
  pc_eq : context.pc = instruction.pc
  mnemonic_eq : context.mnemonic = instruction.mnemonic
  live : context.live = true
  popped : context.pops.length = instruction.op.effect.pops
  pushed : context.pushes.length = instruction.op.effect.pushes
  stack : ∃ below, before.frame.stack = context.pops ++ below ∧
    after.frame.stack = context.pushes.reverse ++ below
  fresh : ∀ value ∈ context.pushes, before.graph.value? value = none ∧
    ∃ node, after.graph.value? value = some node ∧ node.pushedBy = id ∧ node.poppedBy = []
  ascending : context.pushes.Pairwise (· < ·)
  counted : after.graph.values.size = before.graph.values.size + instruction.op.effect.pushes

/-- The values that an execution makes are new and nobody has popped them yet. -/
theorem Mirrored.performed (mirrored : before.Mirrored)
    (executed : before.execute instruction = (.ok id, after)) :
    before.Performed instruction id after (before.trace instruction) := by
  have effect := executed_of_ok executed
  have next : after.Mirrored := by
    have kept := mirrored.execute instruction
    rwa [executed] at kept
  have first : (before.execute instruction).1 = .ok id := congrArg Prod.fst executed
  have here : id = before.graph.contexts.size := (mirrored.execute_eq_ok_iff.mp first).1
  have entered : after.graph.context? before.graph.contexts.size =
      some (before.trace instruction) := by
    simp [Graph.context?, effect.contexts]
  refine ⟨here, effect.contexts, rfl, rfl, rfl, rfl, ?_, ?_, ?_, ?_, ?_, effect.size⟩
  · simp [trace, operands, effect.enough]
  · simp [trace, products]
  · exact ⟨before.frame.stack.drop instruction.op.effect.pops,
      (List.take_append_drop _ _).symm, effect.stack⟩
  · intro value made
    obtain ⟨node, found, producer⟩ := next.linked.pushed entered made
    have young : before.nextValue ≤ value := (List.mem_range'_1.mp made).1
    have onStack : value ∈ after.frame.stack := by
      rw [effect.stack]
      exact List.mem_append_left _ (List.mem_reverse.mpr made)
    obtain ⟨same, again, free⟩ := (next.waiting value).mp onStack
    obtain rfl := Option.some.inj (found.symm.trans again)
    exact ⟨Array.getElem?_eq_none young, node, found, producer.trans here.symm, free⟩
  · exact List.pairwise_lt_range'

/-- The contract of an execution, for every simulation that can be reached. It succeeds exactly if
the operation is no shift or bitwise operation on floating-point values, the stack holds as many
values as the operation is declared to pop, and the top is wide for the operations that move wide
values. A success adds one context and does to the stack what is declared. A failure is put down to
the missing form, to the narrow top, or else to a stack that holds too little. -/
theorem execute_contract {before : Simulation} (reachable : before.Reachable)
    (instruction : Instruction) :
    ((∃ id, (before.execute instruction).1 = .ok id) ↔
      ¬instruction.op.IsFormless ∧ instruction.op.effect.pops ≤ before.frame.stack.length ∧
        (instruction.op.MovesWide → before.TopIs true)) ∧
    (∀ id after, before.execute instruction = (.ok id, after) →
      ∃ context, before.Performed instruction id after context) ∧
    ∀ fault, (before.execute instruction).1 = .error fault →
      (∀ operation kind, instruction.op = .arith operation kind → instruction.op.IsFormless →
          fault = .unsupported (.noFloatingForm operation kind instruction.pc)) ∧
        (instruction.op.MovesWide → before.TopIs false →
          fault = .unsupported (.narrowOperand instruction.mnemonic instruction.pc)) ∧
        (¬instruction.op.IsFormless → ¬(instruction.op.MovesWide ∧ before.TopIs false) →
          fault = .stackUnderflow instruction.mnemonic instruction.pc) := by
  have mirrored := reachable.mirrored
  refine ⟨?_, ?_, ?_⟩
  · constructor
    · rintro ⟨id, succeeded⟩
      exact (mirrored.execute_eq_ok_iff.mp succeeded).2
    · intro admitted
      exact ⟨before.nextContext, mirrored.execute_eq_ok_iff.mpr ⟨rfl, admitted⟩⟩
  · intro id after executed
    exact ⟨before.trace instruction, mirrored.performed executed⟩
  · intro fault failed
    exact mirrored.fault_of_execute failed

/-- A wide value is pushed on top of a narrow one. -/
def twoWidths : List Action :=
  [.execute ⟨0, 0, .ldc (.int 7)⟩, .execute ⟨1, 2, .ldc (.long 3)⟩]

/-- The wide value can be duplicated as a whole. Once it has been popped, the narrow one below it
cannot. -/
theorem execute_contract_twoWidths :
    (∃ id, ((driven (.empty 0 1) twoWidths).execute ⟨2, 5, .dup2⟩).1 = .ok id) ∧
      ∃ fault, ((driven (.empty 0 1) (twoWidths ++ [.execute ⟨2, 5, .pop2⟩])).execute
          ⟨3, 6, .dup2⟩).1 = .error fault ∧
        fault = .unsupported (.narrowOperand "dup2" 6) := by
  have wide := execute_contract ⟨.empty 0 1, twoWidths, rfl, rfl⟩ ⟨2, 5, .dup2⟩
  have narrow := execute_contract
    ⟨.empty 0 1, twoWidths ++ [.execute ⟨2, 5, .pop2⟩], rfl, rfl⟩ ⟨3, 6, .dup2⟩
  constructor
  · refine wide.1.mpr ⟨?_, by decide, fun _ => ⟨1, _, rfl, rfl, rfl⟩⟩
    rintro ⟨_, _, op, _⟩
    cases op
  · exact ⟨_, rfl, (narrow.2.2 _ rfl).2.1 (.inl rfl) ⟨0, _, rfl, rfl, rfl⟩⟩

end Simulation

end ClassTrim
