import ClassTrim.Proofs.Provenance.Linked
import ClassTrim.Simulation.Step

/-!
# What one execution does

Each kind of operation pops and pushes in its own way. Seen from outside they all do the same: they
pop as many values as the effect of the operation declares, from the top of the stack, write a slot
if they store, and push what they make of the operands. `perform_eq` proves this, kind by kind, of
what is executed; everything else here and later goes by it.

`Executed` states the whole effect of a successful execution at once: the context that it adds, the
values that it makes, and the stack and slots that it leaves. The new values have identities that
were never used before.

An execution succeeds exactly when the operation exists for its operands, the stack holds enough
values, and the top is wide where that is asked for; so the relation also says when a simulation
goes on.
-/

namespace ClassTrim

namespace Simulation

/-- Pushes values in order. -/
def pushMany (simulation : Simulation) (context : ContextId) (contents : List Content) :
    Simulation :=
  contents.foldl (fun state content => state.push context content) simulation

/-- What an operation pushes, given the local slots and the operands that it popped, the top of the
stack first. -/
def results (op : Op) (locals : Locals) (operands : List Content) : List Content :=
  match op with
  | .aconstNull => [⟨.null, .null⟩]
  | .ldc constant => [.ofConstant constant]
  | .load kind index => [loaded locals kind index]
  | .arith operation kind =>
    match operands with
    | right :: left => [⟨kind.type, fold operation kind (left.head?.map Content.value) right.value⟩]
    | [] => []
  | .dup | .dup2 =>
    match operands with
    | copied :: _ => [copied, copied]
    | [] => []
  | .new className => [.unknown (.ref className)]
  | .field .getField target | .field .getStatic target => [.unknown target.type]
  | .invoke _ target => target.descriptor.result.toList.map .unknown
  | _ => []

/-- What an operation does to the local slots, given the values that it popped. -/
def storeResult (simulation : Simulation) (op : Op) (popped : List ValueId) : Simulation :=
  match op, popped with
  | .store _ index, value :: _ =>
    simulation.store index.toNat ⟨simulation.graph.content value, some value⟩
  | _, _ => simulation

/-- The simulation without a number of values from the top of its stack, which a context popped. -/
def without (simulation : Simulation) (context : ContextId) (count : Nat) : Simulation :=
  { frame := { simulation.frame with stack := simulation.frame.stack.drop count }
    graph := (simulation.frame.stack.take count).foldl
      (fun graph value => graph.recordPop context value) simulation.graph }

/-- An operation makes as many values as its effect states, given its operands. -/
theorem length_results (op : Op) (locals : Locals) (operands : List Content)
    (enough : operands.length = op.effect.pops) :
    (results op locals operands).length = op.effect.pushes := by
  cases op with
  | arith operation kind =>
    cases operands with
    | nil => cases operation <;> simp [Op.effect, ArithOp.operands] at enough
    | cons right left => rfl
  | dup | dup2 =>
    cases operands with
    | nil => simp [Op.effect] at enough
    | cons copied rest => rfl
  | field access target => cases access <;> rfl
  | invoke kind target =>
    cases result : target.descriptor.result <;> simp [results, Op.effect, result]
  | ret kind => cases kind <;> rfl
  | _ => rfl

/-- The values that an instruction finds to pop, the top of the stack first. -/
def operands (simulation : Simulation) (instruction : Instruction) : List ValueId :=
  simulation.frame.stack.take instruction.op.effect.pops

/-- The values that an instruction makes, in order. -/
def products (simulation : Simulation) (instruction : Instruction) : List ValueId :=
  List.range' simulation.nextValue instruction.op.effect.pushes

/-- The context that an instruction leaves behind. -/
def trace (simulation : Simulation) (instruction : Instruction) : Context :=
  { Context.opened instruction simulation.frame.id with
    pops := simulation.operands instruction
    pushes := simulation.products instruction }

/-- The effect of a successful execution. -/
structure Executed (before : Simulation) (instruction : Instruction) (after : Simulation) :
    Prop where
  form : formFault? instruction = none
  enough : instruction.op.effect.pops ≤ before.frame.stack.length
  wide : instruction.op.needsWideTop = true → before.hasNarrowTop = false
  contexts : after.graph.contexts = before.graph.contexts.push (before.trace instruction)
  stack : after.frame.stack = (before.products instruction).reverse ++
    before.frame.stack.drop instruction.op.effect.pops
  size : after.nextValue = before.nextValue + instruction.op.effect.pushes
  older : ∀ value, value < before.nextValue → after.graph.content value = before.graph.content value
  newer : (before.products instruction).map after.graph.content =
    results instruction.op before.frame.locals
      ((before.operands instruction).map before.graph.content)
  locals : after.frame.locals =
    (before.storeResult instruction.op (before.operands instruction)).frame.locals
  id : after.frame.id = before.frame.id

/-- On an empty stack there is nothing to go on with. -/
theorem popThen_nil {simulation : Simulation} (stack : simulation.frame.stack = [])
    (context : ContextId) (next : ValueId → Simulation → Bool × Simulation) :
    simulation.popThen context next = (false, simulation) := by
  simp [popThen, pop?, stack]

/-- To pop a value is to go on without it. -/
theorem popThen_cons {simulation : Simulation} {value : ValueId} {rest : List ValueId}
    (stack : simulation.frame.stack = value :: rest) (context : ContextId)
    (next : ValueId → Simulation → Bool × Simulation) :
    simulation.popThen context next = next value (simulation.without context 1) := by
  simp [popThen, pop?, without, stack]

/-- Nothing is left to take from an empty stack. -/
theorem without_nil {simulation : Simulation} (stack : simulation.frame.stack = [])
    (context : ContextId) (count : Nat) : simulation.without context count = simulation := by
  have same : simulation =
      { frame := { simulation.frame with stack := [] }, graph := simulation.graph } := by
    rw [← stack]
  rw [without, stack, List.drop_nil, List.take_nil]
  exact same.symm

/-- Values can be taken one after the other. -/
theorem without_succ {simulation : Simulation} {value : ValueId} {rest : List ValueId}
    (stack : simulation.frame.stack = value :: rest) (context : ContextId) (count : Nat) :
    (simulation.without context 1).without context count =
      simulation.without context (count + 1) := by
  simp [without, stack]

/-- Popping takes the top of the stack and leaves the rest, as far as the stack goes. -/
theorem popMany_eq (simulation : Simulation) (context : ContextId) (count : Nat) :
    simulation.popMany context count =
      (decide (count ≤ simulation.frame.stack.length), simulation.without context count) := by
  induction count generalizing simulation with
  | zero => simp [popMany, without]
  | succ count ih =>
    rw [popMany]
    cases stack : simulation.frame.stack with
    | nil => simp [popThen_nil stack, without_nil stack]
    | cons value rest =>
      have fewer : (simulation.without context 1).frame.stack = rest := by simp [without, stack]
      rw [popThen_cons stack, ih, fewer, without_succ stack]
      simp

/-- Several pops are noted in their context in order, behind the earlier ones. -/
theorem contexts_recordPops (values : List ValueId) (context : ContextId) (graph : Graph) :
    (values.foldl (fun graph value => graph.recordPop context value) graph).contexts =
      graph.contexts.modify context fun entry => { entry with pops := entry.pops ++ values } := by
  induction values generalizing graph with
  | nil =>
    apply Array.ext_getElem?
    intro index
    simp [Array.getElem?_modify]
  | cons value rest ih =>
    rw [List.foldl_cons, ih, Graph.recordPop]
    apply Array.ext_getElem?
    intro index
    simp only [Array.getElem?_modify]
    split <;> simp [Function.comp_def]

/-- Pops make no values. -/
theorem size_recordPops (values : List ValueId) (context : ContextId) (graph : Graph) :
    (values.foldl (fun graph value => graph.recordPop context value) graph).values.size =
      graph.values.size := by
  induction values generalizing graph with
  | nil => rfl
  | cons value rest ih =>
    rw [List.foldl_cons, ih, Graph.recordPop]
    exact Array.size_modify

/-- Pops change no content. -/
theorem content_recordPops (values : List ValueId) (context : ContextId) (graph : Graph)
    (value : ValueId) :
    (values.foldl (fun graph value => graph.recordPop context value) graph).content value =
      graph.content value := by
  induction values generalizing graph with
  | nil => rfl
  | cons head rest ih =>
    rw [List.foldl_cons, ih, Graph.content_recordPop]

/-- Pushing puts the new values on the stack, the last one on top. -/
theorem pushMany_spec (contents : List Content) (context : ContextId) (simulation : Simulation) :
    (simulation.pushMany context contents).frame =
        { simulation.frame with
          stack := (List.range' simulation.nextValue contents.length).reverse ++
            simulation.frame.stack } ∧
      (simulation.pushMany context contents).graph.contexts =
        simulation.graph.contexts.modify context (fun entry =>
          { entry with
            pushes := entry.pushes ++ List.range' simulation.nextValue contents.length }) ∧
      (simulation.pushMany context contents).nextValue =
        simulation.nextValue + contents.length ∧
      (∀ value, value < simulation.nextValue →
        (simulation.pushMany context contents).graph.content value =
          simulation.graph.content value) ∧
      (List.range' simulation.nextValue contents.length).map
        (simulation.pushMany context contents).graph.content = contents := by
  induction contents generalizing simulation with
  | nil =>
    have contexts : simulation.graph.contexts =
        simulation.graph.contexts.modify context fun entry =>
          { entry with pushes := entry.pushes ++ List.range' simulation.nextValue 0 } := by
      apply Array.ext_getElem?
      intro index
      simp [Array.getElem?_modify]
    exact ⟨rfl, contexts, rfl, fun _ _ => rfl, rfl⟩
  | cons content rest ih =>
    obtain ⟨frame, contexts, size, older, newer⟩ := ih (simulation.push context content)
    have next : (simulation.push context content).nextValue = simulation.nextValue + 1 := by
      simp [nextValue, push, Graph.recordPush]
    have unfolded : simulation.pushMany context (content :: rest) =
        (simulation.push context content).pushMany context rest := rfl
    have pushed : ∀ value, (simulation.push context content).graph.content value =
        if value = simulation.nextValue then content else simulation.graph.content value :=
      Graph.content_recordPush simulation.graph context content
    rw [unfolded]
    simp only [next] at frame contexts size older newer
    refine ⟨?_, ?_, ?_, ?_, ?_⟩
    · rw [frame]
      simp [push, List.range'_succ]
    · rw [contexts]
      apply Array.ext_getElem?
      intro index
      simp only [push, Graph.recordPush, Array.getElem?_modify]
      split <;> simp [Function.comp_def, List.range'_succ, nextValue]
    · rw [size, List.length_cons]
      grind
    · intro value bound
      rw [older value (Nat.lt_succ_of_lt bound), pushed, if_neg (Nat.ne_of_lt bound)]
    · rw [List.length_cons, List.range'_succ, List.map_cons, newer,
        older simulation.nextValue (Nat.lt_succ_self _), pushed, if_pos rfl]

/-- What is known about a value does not depend on who pops what. -/
theorem content_without (simulation : Simulation) (context : ContextId) (count : Nat)
    (value : ValueId) :
    (simulation.without context count).graph.content value = simulation.graph.content value :=
  content_recordPops _ _ _ _

/-- The simulation after an operation has done all that it does. -/
def done (simulation : Simulation) (context : ContextId) (op : Op) : Simulation :=
  ((simulation.without context op.effect.pops).storeResult op
      (simulation.frame.stack.take op.effect.pops)).pushMany context
    (results op simulation.frame.locals
      ((simulation.frame.stack.take op.effect.pops).map simulation.graph.content))

variable {simulation : Simulation} {context : ContextId} {op : Op}

/-- An operation that pops one value is done once it has been given that value. -/
theorem popThen_eq_of_one {next : ValueId → Simulation → Bool × Simulation}
    (one : op.effect.pops = 1)
    (goesOn : ∀ value rest, simulation.frame.stack = value :: rest →
      next value (simulation.without context 1) = (true, simulation.done context op)) :
    simulation.popThen context next =
      if op.effect.pops ≤ simulation.frame.stack.length then (true, simulation.done context op)
      else (false, simulation.without context op.effect.pops) := by
  rw [one]
  cases stack : simulation.frame.stack with
  | nil => simp [popThen_nil stack, without_nil stack]
  | cons value rest =>
    rw [popThen_cons stack, goesOn value rest stack]
    simp

/-- An operation that pops two values is done once it has been given both; with one value on the
stack, it has popped that one when it runs out. -/
theorem popThen_eq_of_two {next : ValueId → ValueId → Simulation → Bool × Simulation}
    (two : op.effect.pops = 2)
    (goesOn : ∀ first second rest, simulation.frame.stack = first :: second :: rest →
      next first second (simulation.without context 2) = (true, simulation.done context op)) :
    (simulation.popThen context fun first rest => rest.popThen context (next first)) =
      if op.effect.pops ≤ simulation.frame.stack.length then (true, simulation.done context op)
      else (false, simulation.without context op.effect.pops) := by
  rw [two]
  cases stack : simulation.frame.stack with
  | nil => simp [popThen_nil stack, without_nil stack]
  | cons first others =>
    have fewer : (simulation.without context 1).frame.stack = others := by simp [without, stack]
    have both : (simulation.without context 1).without context 1 = simulation.without context 2 :=
      without_succ stack context 1
    rw [popThen_cons stack]
    cases others with
    | nil => simp [popThen_nil fewer, ← both, without_nil fewer]
    | cons second rest =>
      rw [popThen_cons fewer, both, goesOn first second rest stack]
      simp

/-- Every kind of operation pops as many values as its effect declares and pushes its results, or
runs out of values to pop.

The proof takes the kinds one by one. Those that pop nothing always succeed. The number of values
that a call or a conditional branch pops depends on its operand, which `popMany_eq` covers. -/
theorem perform_eq (simulation : Simulation) (context : ContextId) (op : Op) :
    simulation.perform context op =
      if op.effect.pops ≤ simulation.frame.stack.length then (true, simulation.done context op)
      else (false, simulation.without context op.effect.pops) := by
  cases op with
  | nop | aconstNull | ldc _ | load _ _ | new _ | goto _ => exact (if_pos (Nat.zero_le _)).symm
  | store _ _ | pop | pop2 | dup | dup2 | athrow =>
    refine popThen_eq_of_one rfl fun value rest stack => ?_
    simp [done, storeResult, results, pushMany, content_without, Op.effect, stack]
  | ret kind =>
    cases kind with
    | none => exact (if_pos (Nat.zero_le _)).symm
    | some kind => exact popThen_eq_of_one rfl fun value rest stack => rfl
  | arith operation kind =>
    by_cases two : operation.operands = 2
    · simp only [perform, two, if_true]
      refine popThen_eq_of_two two fun right left rest stack => ?_
      simp [done, storeResult, results, pushMany, content_without, Op.effect, stack, two]
    · have one : operation.operands = 1 := by
        cases operation <;> first | rfl | exact absurd rfl two
      simp only [perform, two, if_false]
      refine popThen_eq_of_one one fun right rest stack => ?_
      simp [done, storeResult, results, pushMany, content_without, Op.effect, stack, one]
  | field access target =>
    cases access with
    | getStatic => exact (if_pos (Nat.zero_le _)).symm
    | putStatic => exact popThen_eq_of_one rfl fun value rest stack => rfl
    | getField => exact popThen_eq_of_one rfl fun value rest stack => rfl
    | putField => exact popThen_eq_of_two rfl fun first second rest stack => rfl
  | invoke kind target =>
    simp only [perform, popMany_eq]
    by_cases enough : (Op.invoke kind target).effect.pops ≤ simulation.frame.stack.length
    · rw [if_pos enough, decide_eq_true enough]
      cases result : target.descriptor.result with
      | none => simp [done, storeResult, results, pushMany, result]
      | some type => simp [done, storeResult, results, pushMany, result]
    · rw [if_neg enough, decide_eq_false enough]
  | branch condition target =>
    rw [perform, popMany_eq]
    by_cases enough : condition.operands ≤ simulation.frame.stack.length
    · rw [decide_eq_true enough]
      exact (if_pos enough).symm
    · rw [decide_eq_false enough]
      exact (if_neg enough).symm

/-- The simulation after an instruction has opened its context and popped its operands, or all
that there is. -/
def popped (before : Simulation) (instruction : Instruction) : Simulation :=
  { frame := { before.frame with stack := before.frame.stack.drop instruction.op.effect.pops }
    graph := (before.operands instruction).foldl
      (fun graph value => graph.recordPop before.nextContext value)
      (before.graph.openContext instruction before.frame.id) }

/-- The simulation after an instruction has done all that it does. -/
def completed (before : Simulation) (instruction : Instruction) : Simulation :=
  ((before.popped instruction).storeResult instruction.op (before.operands instruction)).pushMany
    before.nextContext
    (results instruction.op before.frame.locals
      ((before.operands instruction).map before.graph.content))

/-- The whole of an execution: three checks in a fixed order, and what each of the four ways to end
leaves behind. -/
theorem execute_eq (before : Simulation) (instruction : Instruction) :
    before.execute instruction =
      match formFault? instruction with
      | some fault => (.error fault, before)
      | none =>
        if instruction.op.needsWideTop && before.hasNarrowTop then
          (.error (.unsupported (.narrowOperand instruction.mnemonic instruction.pc)),
            before.openContext instruction)
        else if instruction.op.effect.pops ≤ before.frame.stack.length then
          (.ok before.nextContext, before.completed instruction)
        else
          (.error (.stackUnderflow instruction.mnemonic instruction.pc),
            before.popped instruction) := by
  have top : (before.openContext instruction).hasNarrowTop = before.hasNarrowTop := rfl
  have stack : (before.openContext instruction).frame.stack = before.frame.stack := rfl
  cases form : formFault? instruction with
  | some fault => simp only [execute, form]
  | none =>
    by_cases enough : instruction.op.effect.pops ≤ before.frame.stack.length
    · simp only [execute, form, top, perform_eq, stack, enough, if_true]
      rfl
    · simp only [execute, form, top, perform_eq, stack, enough, if_false]
      rfl

/-- An execution that nothing hinders completes. -/
theorem execute_eq_completed (before : Simulation) (instruction : Instruction)
    (form : formFault? instruction = none)
    (wide : instruction.op.needsWideTop = true → before.hasNarrowTop = false)
    (enough : instruction.op.effect.pops ≤ before.frame.stack.length) :
    before.execute instruction = (.ok before.nextContext, before.completed instruction) := by
  have top : (instruction.op.needsWideTop && before.hasNarrowTop) = false := by
    cases needed : instruction.op.needsWideTop with
    | false => rfl
    | true => exact wide needed
  rw [execute_eq, form]
  simp only [top, enough, Bool.false_eq_true, if_false, if_true]

/-- A write to the local slots leaves the graph alone. -/
theorem graph_storeResult (simulation : Simulation) (op : Op) (popped : List ValueId) :
    (simulation.storeResult op popped).graph = simulation.graph := by
  unfold storeResult
  split <;> rfl

/-- A write to the local slots leaves the stack alone. -/
theorem stack_storeResult (simulation : Simulation) (op : Op) (popped : List ValueId) :
    (simulation.storeResult op popped).frame.stack = simulation.frame.stack := by
  unfold storeResult
  split <;> rfl

/-- A write to the local slots leaves the frame its identity. -/
theorem id_storeResult (simulation : Simulation) (op : Op) (popped : List ValueId) :
    (simulation.storeResult op popped).frame.id = simulation.frame.id := by
  unfold storeResult
  split <;> rfl

/-- What a store leaves in the slots depends on the slots and on what is known about
the stored value, on nothing else. -/
theorem locals_storeResult_congr {first second : Simulation}
    (locals : first.frame.locals = second.frame.locals)
    (contents : ∀ value, first.graph.content value = second.graph.content value)
    (op : Op) (popped : List ValueId) :
    (first.storeResult op popped).frame.locals = (second.storeResult op popped).frame.locals := by
  unfold storeResult
  split
  · simp only [store, locals, contents]
  · exact locals

/-- A completed execution has the stated effect. -/
theorem executed_completed (before : Simulation) (instruction : Instruction)
    (form : formFault? instruction = none)
    (wide : instruction.op.needsWideTop = true → before.hasNarrowTop = false)
    (enough : instruction.op.effect.pops ≤ before.frame.stack.length) :
    before.Executed instruction (before.completed instruction) := by
  have contents : ∀ value, (before.popped instruction).graph.content value =
      before.graph.content value := content_recordPops _ _ _
  have count : (results instruction.op before.frame.locals
      ((before.operands instruction).map before.graph.content)).length =
      instruction.op.effect.pushes := by
    apply length_results
    rw [List.length_map, operands, List.length_take, Nat.min_eq_left enough]
  let stored := (before.popped instruction).storeResult instruction.op (before.operands instruction)
  have graph : stored.graph = (before.popped instruction).graph := graph_storeResult _ _ _
  have next : stored.nextValue = before.nextValue := by
    simp only [nextValue, graph]
    exact size_recordPops _ _ _
  obtain ⟨frame, contexts, size, older, newer⟩ := pushMany_spec
    (results instruction.op before.frame.locals
      ((before.operands instruction).map before.graph.content)) before.nextContext stored
  rw [next, count] at frame contexts newer
  rw [next, count] at size
  rw [next] at older
  refine ⟨form, enough, wide, ?_, ?_, size, ?_, newer, ?_, ?_⟩
  · rw [show (before.completed instruction).graph.contexts = _ from contexts, graph, popped,
      contexts_recordPops]
    apply Array.ext_getElem?
    intro index
    simp only [Array.getElem?_modify, Graph.openContext, Array.getElem?_push, nextContext]
    by_cases last : before.graph.contexts.size = index
    · subst last
      simp [trace, Context.opened, products, operands]
    · simp [last, Ne.symm last]
  · rw [show (before.completed instruction).frame = _ from frame]
    exact congrArg _ (stack_storeResult _ _ _)
  · intro value bound
    rw [show (before.completed instruction).graph.content value = _ from older value bound, graph,
      contents]
  · rw [show (before.completed instruction).frame = _ from frame]
    have slots : (before.popped instruction).frame.locals = before.frame.locals := rfl
    exact locals_storeResult_congr slots contents _ _
  · rw [show (before.completed instruction).frame = _ from frame]
    exact id_storeResult _ _ _

/-- A successful execution has passed the three checks. -/
theorem unhindered_of_ok {before after : Simulation} {instruction : Instruction} {id : ContextId}
    (done : before.execute instruction = (.ok id, after)) :
    formFault? instruction = none ∧
      (instruction.op.needsWideTop = true → before.hasNarrowTop = false) ∧
      instruction.op.effect.pops ≤ before.frame.stack.length := by
  rw [execute_eq] at done
  split at done
  · cases done
  · next form =>
    split at done
    · cases done
    · next top =>
      split at done
      · next enough =>
        refine ⟨form, fun needed => ?_, enough⟩
        simpa [needed] using top
      · cases done

/-- A successful execution has the stated effect. -/
theorem executed_of_ok {before after : Simulation} {instruction : Instruction} {id : ContextId}
    (done : before.execute instruction = (.ok id, after)) : before.Executed instruction after := by
  obtain ⟨form, wide, enough⟩ := unhindered_of_ok done
  rw [execute_eq_completed before instruction form wide enough] at done
  obtain ⟨-, rfl⟩ := Prod.mk.inj done
  exact executed_completed before instruction form wide enough

end Simulation

end ClassTrim
