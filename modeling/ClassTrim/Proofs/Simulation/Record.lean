import ClassTrim.Proofs.Provenance.Ownership
import ClassTrim.Proofs.Simulation.Mirror
import ClassTrim.Proofs.Simulation.Thread
import ClassTrim.Simulation.Run

/-!
# The record of a run

After a successful run the graph holds one context for each instruction, in the order
of the body, and the values in the order in which they were pushed. Its pops and pushes
thread the stack through the body: that is what a run is, seen from the graph.

How wide a value is depends only on the operation that pushed it and on how wide its
operands are, never on what the slots hold. `Op.widths` is that dependence; it is why a
body can be walked again after stores have been taken out of it.
-/

namespace ClassTrim

/-- The context is one of an instruction, and has popped and pushed as many values as
the instruction's effect states. -/
structure Context.Records (context : Context) (instruction : Instruction) : Prop where
  same : context.instruction = instruction.id
  duplication : context.duplication = instruction.op.isDuplication
  fulfils : context.fulfils instruction.op.effect = true

namespace Context.Records

variable {context : Context} {instruction : Instruction}

/-- The context popped as many values as the effect states. -/
theorem length_pops (records : context.Records instruction) :
    context.pops.length = instruction.op.effect.pops := by
  have fulfils := records.fulfils
  simp only [Context.fulfils, Bool.and_eq_true, decide_eq_true_eq] at fulfils
  exact fulfils.1

/-- The context pushed as many values as the effect states. -/
theorem length_pushes (records : context.Records instruction) :
    context.pushes.length = instruction.op.effect.pushes := by
  have fulfils := records.fulfils
  simp only [Context.fulfils, Bool.and_eq_true, decide_eq_true_eq] at fulfils
  exact fulfils.2

end Context.Records

/-- The contexts of a graph are those of a list of instructions, one for each and in
the same order. -/
structure Graph.Lists (graph : Graph) (done : List Instruction) : Prop where
  distinct : (done.map Instruction.id).Nodup
  count : graph.contexts.size = done.length
  records : ∀ {index instruction}, done[index]? = some instruction →
    ∃ context, graph.context? index = some context ∧ context.Records instruction

namespace Graph.Lists

variable {graph : Graph} {done : List Instruction}

/-- Every instruction has its context. -/
theorem exists_context (lists : graph.Lists done) {instruction : Instruction}
    (member : instruction ∈ done) :
    ∃ id context, graph.context? id = some context ∧ context.Records instruction := by
  obtain ⟨index, present⟩ := List.mem_iff_getElem?.mp member
  obtain ⟨context, found, records⟩ := lists.records present
  exact ⟨index, context, found, records⟩

/-- Every context is one of the instruction at its place. -/
theorem exists_instruction (lists : graph.Lists done) {id : ContextId} {context : Context}
    (found : graph.context? id = some context) :
    ∃ instruction, done[id]? = some instruction ∧ context.Records instruction := by
  have bound : id < done.length := lists.count ▸ lt_of_context? found
  have present : done[id]? = some done[id] := List.getElem?_eq_getElem bound
  obtain ⟨entry, entered, records⟩ := lists.records present
  rw [found, Option.some.injEq] at entered
  exact ⟨done[id], present, entered ▸ records⟩

/-- Contexts stand in the order of the instructions, which differ from each other. -/
theorem single (lists : graph.Lists done) : graph.Single := by
  intro first second context other found again same
  obtain ⟨left, atFirst, leftRecords⟩ := lists.exists_instruction found
  obtain ⟨right, atSecond, rightRecords⟩ := lists.exists_instruction again
  have firstId : (done.map Instruction.id)[first]? = some context.instruction := by
    simp [List.getElem?_map, atFirst, leftRecords.same]
  have secondId : (done.map Instruction.id)[second]? = some context.instruction := by
    simp [List.getElem?_map, atSecond, same, rightRecords.same]
  obtain ⟨bound, _⟩ := List.getElem?_eq_some_iff.mp firstId
  exact (List.getElem?_inj bound lists.distinct).mp (firstId.trans secondId.symm)

/-- A context that is added for a new instruction keeps the list. -/
theorem push (lists : graph.Lists done) {instruction : Instruction} {context : Context}
    {next : Graph} (new : instruction.id ∉ done.map Instruction.id)
    (contexts : next.contexts = graph.contexts.push context)
    (records : context.Records instruction) : next.Lists (done ++ [instruction]) where
  distinct := by
    rw [List.map_append]
    refine List.nodup_append.mpr ⟨lists.distinct, by simp, ?_⟩
    intro first member second last same
    have isNew : second = instruction.id := by simpa using last
    exact new (isNew ▸ same ▸ member)
  count := by simp [contexts, lists.count]
  records := by
    intro index entry present
    simp only [context?, contexts, Array.getElem?_push, lists.count]
    rcases Nat.lt_trichotomy index done.length with inside | atEnd | outside
    · rw [List.getElem?_append_left inside] at present
      rw [if_neg (Nat.ne_of_lt inside)]
      exact lists.records present
    · subst atEnd
      have isNew : instruction = entry := by simpa using present
      rw [if_pos rfl]
      exact ⟨context, rfl, isNew ▸ records⟩
    · obtain ⟨bound, _⟩ := List.getElem?_eq_some_iff.mp present
      rw [List.length_append, List.length_singleton] at bound
      omega

end Graph.Lists

/-- Which of the values that an operation pushes are wide, given which of its operands
are. -/
def Op.widths (op : Op) (operands : List Bool) : List Bool :=
  match op with
  | .aconstNull | .new _ => [false]
  | .ldc constant => [constant.type.isWide]
  | .load kind _ => [kind.isWide]
  | .arith _ kind =>
    match operands with
    | _ :: _ => [kind.type.isWide]
    | [] => []
  | .dup | .dup2 =>
    match operands with
    | copied :: _ => [copied, copied]
    | [] => []
  | .field .getField target | .field .getStatic target => [target.type.isWide]
  | .invoke _ target => target.descriptor.result.toList.map StackType.isWide
  | _ => []

/-- A slot that a load may read is as wide as the load. -/
theorem LocalKind.isWide_of_fits {kind : LocalKind} {type : StackType}
    (fits : kind.fits type = true) : type.isWide = kind.isWide := by
  cases kind <;> cases type <;>
    simp_all [LocalKind.fits, StackType.isWide, LocalKind.isWide, StackType.isReference]

namespace Simulation

/-- Whether a value of a simulation is wide. -/
def isWideValue (simulation : Simulation) (value : ValueId) : Bool :=
  (simulation.graph.content value).type.isWide

/-- A load pushes a value of the width that it asks for, whatever the slot holds. -/
theorem isWide_loaded (locals : Locals) (kind : LocalKind) (index : UInt16) :
    (loaded locals kind index).type.isWide = kind.isWide := by
  unfold loaded
  split
  · split
    · next fits => exact LocalKind.isWide_of_fits fits
    · cases kind <;> rfl
  · cases kind <;> rfl

/-- The slots do not decide how wide a result is. -/
theorem map_isWide_results (op : Op) (locals : Locals) (operands : List Content) :
    (results op locals operands).map (·.type.isWide) =
      op.widths (operands.map (·.type.isWide)) := by
  cases op with
  | load kind index => simp [results, Op.widths, isWide_loaded]
  | arith operation kind => cases operands <;> rfl
  | dup | dup2 => cases operands <;> rfl
  | field access target => cases access <;> rfl
  | invoke kind target => simp [results, Op.widths, Content.unknown, Function.comp_def]
  | _ => rfl

/-- What an execution asks of the widths of its operands, and what it makes of them. -/
def WidthLaw (instruction : Instruction) (operands products : List Bool) : Prop :=
  formFault? instruction = none ∧
    (instruction.op.needsWideTop = true → ∀ wide ∈ operands, wide = true) ∧
    products = instruction.op.widths operands

/-- The graph records a run through a list of instructions, one context for each. -/
structure Recorded (done : List Instruction) (simulation : Simulation) : Prop where
  mirrored : simulation.Mirrored
  lists : simulation.graph.Lists done
  threads : Threads simulation.graph.popsOf simulation.graph.pushesOf [] done
    simulation.frame.stack
  ordered : done.flatMap (fun instruction => simulation.graph.pushesOf instruction.id) =
    List.range simulation.nextValue
  widths : ∀ instruction ∈ done, WidthLaw instruction
    ((simulation.graph.popsOf instruction.id).map simulation.isWideValue)
    ((simulation.graph.pushesOf instruction.id).map simulation.isWideValue)

/-- The operations that need a wide operand pop nothing else. -/
theorem pops_of_needsWideTop {op : Op} (needed : op.needsWideTop = true) : op.effect.pops = 1 := by
  cases op <;> simp_all [Op.needsWideTop, Op.effect]

namespace Recorded

variable {done : List Instruction} {simulation : Simulation}

/-- Before the first instruction there is nothing to record. -/
theorem start (frame : Frame) (fresh : frame.stack = []) :
    Recorded [] (Simulation.start frame) where
  mirrored := Mirrored.start frame fresh
  lists := ⟨List.nodup_nil, rfl, by simp⟩
  threads := fresh.symm
  ordered := rfl
  widths := by simp

/-- What an instruction popped and pushed exists. -/
theorem bounded (recorded : Recorded done simulation) :
    ∀ instruction ∈ done,
      (∀ value ∈ simulation.graph.popsOf instruction.id, value < simulation.nextValue) ∧
        ∀ value ∈ simulation.graph.pushesOf instruction.id, value < simulation.nextValue := by
  have pushes : ∀ instruction ∈ done,
      ∀ value ∈ simulation.graph.pushesOf instruction.id, value < simulation.nextValue := by
    intro instruction member value inside
    have listed : value ∈ done.flatMap (fun other => simulation.graph.pushesOf other.id) :=
      List.mem_flatMap.mpr ⟨instruction, member, inside⟩
    rw [recorded.ordered] at listed
    exact List.mem_range.mp listed
  have pops := (recorded.threads.forall_of_pushes (by simp) pushes).1
  exact fun instruction member => ⟨pops instruction member, pushes instruction member⟩

/-- What an instruction popped was pushed before what it pushed. -/
theorem pops_lt_pushes (recorded : Recorded done simulation) {instruction : Instruction}
    (member : instruction ∈ done) :
    ∀ popped ∈ simulation.graph.popsOf instruction.id,
      ∀ pushed ∈ simulation.graph.pushesOf instruction.id, popped < pushed := by
  intro popped popMember pushed pushMember
  obtain ⟨front, rear, split⟩ := List.append_of_mem member
  have threads := recorded.threads
  have ordered := recorded.ordered
  rw [split] at threads ordered
  obtain ⟨middle, before, below, stack, _⟩ := Threads.append_iff.mp threads
  have earlier : ∀ value ∈ middle,
      value ∈ front.flatMap (fun other => simulation.graph.pushesOf other.id) := by
    refine (before.forall_of_pushes (by simp) ?_).2
    intro other inside value pushed
    exact List.mem_flatMap.mpr ⟨other, inside, pushed⟩
  have first := earlier popped (stack ▸ List.mem_append_left _ popMember)
  have later : pushed ∈ (instruction :: rear).flatMap
      (fun other => simulation.graph.pushesOf other.id) :=
    List.mem_flatMap.mpr ⟨instruction, List.mem_cons_self, pushMember⟩
  have sorted : List.Pairwise (· < ·) (List.range simulation.nextValue) := List.pairwise_lt_range
  rw [← ordered, List.flatMap_append] at sorted
  exact (List.pairwise_append.mp sorted).2.2 popped first pushed later

section Execute

variable {instruction : Instruction} {id : ContextId} {next : Simulation}

/-- A successful execution adds the context of its instruction. -/
theorem lists_execute (recorded : Recorded done simulation)
    (new : instruction.id ∉ done.map Instruction.id)
    (executed : simulation.execute instruction = (.ok id, next)) :
    next.graph.Lists (done ++ [instruction]) := by
  have effect := executed_of_ok executed
  refine recorded.lists.push new effect.contexts ⟨rfl, rfl, ?_⟩
  simp [Context.fulfils, trace, operands, products, Nat.min_eq_left effect.enough]

/-- Old contexts stay where they are. -/
theorem context?_execute (executed : simulation.execute instruction = (.ok id, next))
    {index : ContextId} {context : Context}
    (found : simulation.graph.context? index = some context) :
    next.graph.context? index = some context := by
  have bound := Graph.lt_of_context? found
  simp only [Graph.context?, (executed_of_ok executed).contexts, Array.getElem?_push]
  rw [if_neg (Nat.ne_of_lt bound)]
  exact found

/-- A successful execution leaves its own context at the next number. -/
theorem context?_execute_new (executed : simulation.execute instruction = (.ok id, next)) :
    next.graph.context? simulation.nextContext = some (simulation.trace instruction) := by
  simp [Graph.context?, (executed_of_ok executed).contexts, nextContext]

/-- What an earlier instruction popped and pushed stays what it was. -/
theorem edges_execute_old (recorded : Recorded done simulation)
    (new : instruction.id ∉ done.map Instruction.id)
    (executed : simulation.execute instruction = (.ok id, next)) {other : Instruction}
    (member : other ∈ done) :
    next.graph.popsOf other.id = simulation.graph.popsOf other.id ∧
      next.graph.pushesOf other.id = simulation.graph.pushesOf other.id := by
  obtain ⟨index, context, found, records⟩ := recorded.lists.exists_context member
  have single : next.graph.Single := (recorded.lists_execute new executed).single
  have still := context?_execute executed found
  rw [← records.same]
  constructor
  · rw [Graph.popsOf_eq recorded.lists.single found, Graph.popsOf_eq single still]
  · rw [Graph.pushesOf_eq recorded.lists.single found, Graph.pushesOf_eq single still]

/-- The instruction itself popped its operands and pushed its products. -/
theorem edges_execute_new (recorded : Recorded done simulation)
    (new : instruction.id ∉ done.map Instruction.id)
    (executed : simulation.execute instruction = (.ok id, next)) :
    next.graph.popsOf instruction.id = simulation.operands instruction ∧
      next.graph.pushesOf instruction.id = simulation.products instruction := by
  have single : next.graph.Single := (recorded.lists_execute new executed).single
  have newest := context?_execute_new executed
  have pops := Graph.popsOf_eq single newest
  have pushes := Graph.pushesOf_eq single newest
  exact ⟨pops, pushes⟩

/-- An operand that has to be wide is. -/
theorem wide_operands (executed : simulation.execute instruction = (.ok id, next))
    (needed : instruction.op.needsWideTop = true) :
    ∀ value ∈ simulation.operands instruction, simulation.isWideValue value = true := by
  intro value top
  have notNarrow := (executed_of_ok executed).wide needed
  rw [operands, pops_of_needsWideTop needed] at top
  cases stack : simulation.frame.stack with
  | nil => simp [stack] at top
  | cons head rest =>
    have isHead : value = head := by simpa [stack] using top
    rw [isHead]
    simpa [hasNarrowTop, stack, isWideValue] using notNarrow

/-- One more successful execution is recorded behind the others. -/
theorem execute (recorded : Recorded done simulation)
    (new : instruction.id ∉ done.map Instruction.id)
    (executed : simulation.execute instruction = (.ok id, next)) :
    Recorded (done ++ [instruction]) next := by
  have effect := executed_of_ok executed
  have mirrored : next.Mirrored := by
    have kept := recorded.mirrored.execute instruction
    rwa [executed] at kept
  have old : ∀ other ∈ done, next.graph.popsOf other.id = simulation.graph.popsOf other.id ∧
      next.graph.pushesOf other.id = simulation.graph.pushesOf other.id :=
    fun _ member => recorded.edges_execute_old new executed member
  obtain ⟨popsNew, pushesNew⟩ := recorded.edges_execute_new new executed
  have wideOld : ∀ value, value < simulation.nextValue →
      next.isWideValue value = simulation.isWideValue value := by
    intro value bound
    rw [isWideValue, effect.older value bound]
    rfl
  refine ⟨mirrored, recorded.lists_execute new executed, ?_, ?_, ?_⟩
  · refine Threads.append_iff.mpr ⟨simulation.frame.stack, ?_, ?_⟩
    · exact recorded.threads.congr (fun other member => (old other member).1)
        fun other member => (old other member).2
    · refine ⟨simulation.frame.stack.drop instruction.op.effect.pops, ?_, ?_⟩
      · rw [popsNew, operands, List.take_append_drop]
      · rw [pushesNew]
        exact effect.stack.symm
  · have front : done.flatMap (fun other => next.graph.pushesOf other.id) =
        List.range simulation.nextValue := by
      rw [← recorded.ordered]
      simp only [List.flatMap]
      rw [List.map_congr_left fun other member => (old other member).2]
    rw [List.flatMap_append, front, effect.size]
    have joined : List.range' 0 simulation.nextValue ++
        List.range' (0 + simulation.nextValue) instruction.op.effect.pushes =
        List.range' 0 (simulation.nextValue + instruction.op.effect.pushes) :=
      List.range'_append_1
    simpa [pushesNew, products, List.range_eq_range'] using joined
  · intro other member
    rcases List.mem_append.mp member with before | last
    · obtain ⟨popsBound, pushesBound⟩ := recorded.bounded other before
      rw [(old other before).1, (old other before).2]
      rw [List.map_congr_left fun value inside => wideOld value (popsBound value inside),
        List.map_congr_left fun value inside => wideOld value (pushesBound value inside)]
      exact recorded.widths other before
    · rw [List.mem_singleton.mp last, popsNew, pushesNew]
      have operandsOld : (simulation.operands instruction).map next.isWideValue =
          (simulation.operands instruction).map simulation.isWideValue := by
        apply List.map_congr_left
        intro value inside
        exact wideOld value (recorded.mirrored.lt_nextValue (List.mem_of_mem_take inside))
      rw [operandsOld]
      refine ⟨effect.form, ?_, ?_⟩
      · intro needed wide inside
        obtain ⟨value, top, rfl⟩ := List.mem_map.mp inside
        exact wide_operands executed needed value top
      · have made := congrArg (List.map (·.type.isWide)) effect.newer
        rw [map_isWide_results, List.map_map, List.map_map] at made
        exact made

end Execute

/-- What comes next among distinct instructions is new. -/
theorem id_not_mem {instruction : Instruction} {rest : List Instruction}
    (distinct : ((done ++ instruction :: rest).map Instruction.id).Nodup) :
    instruction.id ∉ done.map Instruction.id := by
  rw [List.map_append, List.map_cons] at distinct
  intro member
  exact (List.nodup_append.mp distinct).2.2 _ member _ List.mem_cons_self rfl

/-- A successful run is recorded whole. -/
theorem runInstructions {rest : List Instruction} {last : Simulation}
    (recorded : Recorded done simulation) (distinct : ((done ++ rest).map Instruction.id).Nodup)
    (ran : simulation.runInstructions rest = .ok last) : Recorded (done ++ rest) last := by
  induction rest generalizing done simulation with
  | nil =>
    cases ran
    rwa [List.append_nil]
  | cons instruction rest ih =>
    simp only [Simulation.runInstructions] at ran
    split at ran
    · cases ran
    · next id next executed =>
      have new := id_not_mem distinct
      have split : done ++ instruction :: rest = (done ++ [instruction]) ++ rest := by simp
      rw [split] at distinct ⊢
      exact ih (recorded.execute new executed) distinct ran

/-- A successful simulation of a body records the body. -/
theorem run {frame : Frame} {body : Body} (fresh : frame.stack = [])
    (ran : Simulation.run frame body = .ok simulation) :
    Recorded body.instructions simulation := by
  have whole := (start frame fresh).runInstructions body.distinct ran
  rwa [List.nil_append] at whole

end Recorded

end Simulation

end ClassTrim
