import ClassTrim.Proofs.Machine.Account
import ClassTrim.Proofs.Machine.Kinds
import ClassTrim.Proofs.Simulation.Record

/-!
# A meaning for every run

If every load of a body finds a slot of a fitting type, the values of a simulation can be
given a meaning: what the machine makes, in a given world, where the simulation makes the
value. The meaning is built along the run, one instruction after the other, and each value
has the kind that the simulation knows.

The meaning goes on behind an instruction at which the machine stops. What it gives to
values there is never observed.
-/

namespace ClassTrim

/-- Whether every load finds a slot of a fitting type, in a simulation of the
instructions. -/
def Simulation.loadsFit (simulation : Simulation) : List Instruction → Bool
  | [] => true
  | instruction :: rest =>
    instruction.op.finds simulation.frame.locals &&
      (simulation.execute instruction).2.loadsFit rest

namespace Machine

/-- The values of a simulation have a meaning that explains the instructions done. -/
structure Valued (world : World) (frame : Frame) (done : List Instruction)
    (simulation : Simulation) (meaning : ValueId → Value) : Prop where
  typed : ∀ value, value < simulation.nextValue →
    (meaning value).kind = (simulation.graph.content value).type.kind
  explains : Explains world (simulation.graph.operands meaning)
    (simulation.graph.products meaning) 0 (world.enter frame) done
  agree : Agree simulation.frame.locals
    (passed (simulation.graph.operands meaning) (0, world.enter frame) done).2

/-- A meaning that is continued by a list of values from a given one on. -/
def extended (meaning : ValueId → Value) (start : ValueId) (values : List Value)
    (value : ValueId) : Value :=
  if value < start then meaning value else values.getD (value - start) .null

/-- A meaning that is continued keeps the old values. -/
theorem extended_of_lt {meaning : ValueId → Value} {start value : ValueId} {values : List Value}
    (old : value < start) : extended meaning start values value = meaning value := if_pos old

/-- The new values get what they are continued by. -/
theorem map_extended (meaning : ValueId → Value) (start : ValueId) (values : List Value) :
    (List.range' start values.length).map (extended meaning start values) = values := by
  apply List.ext_getElem
  · simp
  · intro index bound inside
    have notOld : ¬start + index < start := Nat.not_lt.mpr (Nat.le_add_right _ _)
    simp [extended, notOld, List.getD_eq_getElem?_getD, List.getElem?_eq_getElem inside]

namespace Valued

variable {world : World} {frame : Frame} {done rest : List Instruction}
  {simulation next last : Simulation} {meaning : ValueId → Value} {instruction : Instruction}
  {id : ContextId}

/-- Before the first instruction there is nothing to explain. -/
theorem start (world : World) (frame : Frame) :
    Valued world frame [] (Simulation.start frame) fun _ => .null where
  typed := by
    intro value bound
    cases bound
  explains := trivial
  agree := .enter world frame

/-- A store keeps the slots in agreement. -/
theorem agree_stored {slots : Slots} (agree : Agree simulation.frame.locals slots) (op : Op)
    {popped : List ValueId} (typed : ∀ value ∈ popped,
      (meaning value).kind = (simulation.graph.content value).type.kind) :
    Agree (simulation.storeResult op popped).frame.locals
      (stored slots op (popped.map meaning)) := by
  cases op with
  | store kind index =>
    cases popped with
    | nil => exact agree
    | cons value others => exact agree.write _ (typed value List.mem_cons_self)
  | _ => exact agree

/-- The machine can do what the simulation did, and makes values of the same kinds. -/
theorem permits_and_kinds {slots : Slots} (agree : Agree simulation.frame.locals slots)
    (found : instruction.op.finds simulation.frame.locals = true)
    (executed : simulation.execute instruction = (.ok id, next))
    (typed : ∀ value ∈ simulation.operands instruction,
      (meaning value).kind = (simulation.graph.content value).type.kind) :
    permits slots instruction.op ((simulation.operands instruction).map meaning) = true ∧
      ∀ (world : World) (count : Nat),
        (results world count slots instruction.op
          ((simulation.operands instruction).map meaning)).map Value.kind =
        (simulation.products instruction).map fun value =>
          (next.graph.content value).type.kind := by
  have effect := Simulation.executed_of_ok executed
  have kinds : ((simulation.operands instruction).map meaning).map Value.kind =
      ((simulation.operands instruction).map simulation.graph.content).map (·.type.kind) := by
    rw [List.map_map, List.map_map]
    exact List.map_congr_left typed
  have enough : ((simulation.operands instruction).map simulation.graph.content).length =
      instruction.op.effect.pops := by
    rw [List.length_map, Simulation.operands, List.length_take, Nat.min_eq_left effect.enough]
  constructor
  · refine permits_of_kinds agree kinds enough found ?_
    intro needed content member
    obtain ⟨value, inside, rfl⟩ := List.mem_map.mp member
    exact Simulation.Recorded.wide_operands executed needed value inside
  · intro world count
    rw [map_kind_results agree count kinds enough found, ← effect.newer, List.map_map]
    rfl

/-- What instructions pop and push means what it meant, if the meaning is continued by what
the last one makes. -/
theorem edges_extended (meaning : ValueId → Value)
    (recorded : Simulation.Recorded done simulation)
    (new : instruction.id ∉ done.map Instruction.id)
    (executed : simulation.execute instruction = (.ok id, next)) {values : List Value}
    (length : values.length = instruction.op.effect.pushes) :
    (∀ other ∈ done,
      next.graph.operands (extended meaning simulation.nextValue values) other.id =
        simulation.graph.operands meaning other.id ∧
      next.graph.products (extended meaning simulation.nextValue values) other.id =
        simulation.graph.products meaning other.id) ∧
    next.graph.operands (extended meaning simulation.nextValue values) instruction.id =
      (simulation.operands instruction).map meaning ∧
    next.graph.products (extended meaning simulation.nextValue values) instruction.id = values := by
  obtain ⟨popsNew, pushesNew⟩ := recorded.edges_execute_new new executed
  have old : ∀ items : List ValueId, (∀ value ∈ items, value < simulation.nextValue) →
      items.map (extended meaning simulation.nextValue values) = items.map meaning :=
    fun items bound => List.map_congr_left fun value member => extended_of_lt (bound value member)
  refine ⟨?_, ?_, ?_⟩
  · intro other member
    obtain ⟨samePops, samePushes⟩ := recorded.edges_execute_old new executed member
    obtain ⟨popsBound, pushesBound⟩ := recorded.bounded other member
    constructor
    · rw [Graph.operands, samePops, old _ popsBound, Graph.operands]
    · rw [Graph.products, samePushes, old _ pushesBound, Graph.products]
  · rw [Graph.operands, popsNew]
    refine old _ fun value member => ?_
    exact recorded.mirrored.lt_nextValue (List.mem_of_mem_take member)
  · rw [Graph.products, pushesNew, Simulation.products, ← length]
    exact map_extended _ _ _

/-- One more execution: the meaning is continued by what the machine makes. -/
theorem execute (valued : Valued world frame done simulation meaning)
    (recorded : Simulation.Recorded done simulation)
    (new : instruction.id ∉ done.map Instruction.id)
    (found : instruction.op.finds simulation.frame.locals = true)
    (executed : simulation.execute instruction = (.ok id, next)) :
    ∃ longer, Valued world frame (done ++ [instruction]) next longer := by
  have effect := Simulation.executed_of_ok executed
  have typed : ∀ value ∈ simulation.operands instruction,
      (meaning value).kind = (simulation.graph.content value).type.kind := fun value member =>
    valued.typed value (recorded.mirrored.lt_nextValue (List.mem_of_mem_take member))
  obtain ⟨permitted, kinds⟩ := permits_and_kinds valued.agree found executed typed
  -- What the machine makes here, after the observations and with the slots of the prefix.
  let before := passed (simulation.graph.operands meaning) (0, world.enter frame) done
  let made := results world before.1 before.2 instruction.op
    ((simulation.operands instruction).map meaning)
  have madeKinds : made.map Value.kind = _ := kinds world before.1
  have length : made.length = instruction.op.effect.pushes := by
    simpa [Simulation.products] using congrArg List.length madeKinds
  obtain ⟨old, operandsNew, productsNew⟩ := edges_extended meaning recorded new executed length
  have same : passed (next.graph.operands (extended meaning simulation.nextValue made))
      (0, world.enter frame) done = before :=
    passed_congr (fun other member => (old other member).1) _
  refine ⟨extended meaning simulation.nextValue made, ?_, ?_, ?_⟩
  · intro value bound
    by_cases isOld : value < simulation.nextValue
    · rw [extended_of_lt isOld, effect.older value isOld]
      exact valued.typed value isOld
    · have member : value ∈ simulation.products instruction := by
        rw [effect.size] at bound
        rw [Simulation.products, List.mem_range'_1]
        exact ⟨Nat.le_of_not_lt isOld, bound⟩
      rw [← productsNew, Graph.products, (recorded.edges_execute_new new executed).2,
        List.map_map] at madeKinds
      exact List.map_inj_left.mp madeKinds value member
  · refine (valued.explains.congr (fun other member => (old other member).1)
      fun other member => (old other member).2).append ?_
    rw [same]
    refine ⟨?_, ?_, trivial⟩
    · rw [operandsNew]
      exact permitted
    · rw [operandsNew, productsNew]
  · rw [passed_append, same]
    show Agree next.frame.locals (stored before.2 instruction.op _)
    rw [operandsNew, effect.locals]
    exact agree_stored valued.agree instruction.op typed

/-- A meaning is continued along a run in which every load finds what it needs. -/
theorem runInstructions (valued : Valued world frame done simulation meaning)
    (recorded : Simulation.Recorded done simulation)
    (distinct : ((done ++ rest).map Instruction.id).Nodup)
    (fit : simulation.loadsFit rest = true)
    (ran : simulation.runInstructions rest = .ok last) :
    ∃ longer, Valued world frame (done ++ rest) last longer := by
  induction rest generalizing done simulation meaning with
  | nil =>
    cases ran
    rw [List.append_nil]
    exact ⟨meaning, valued⟩
  | cons instruction rest ih =>
    simp only [Simulation.runInstructions] at ran
    simp only [Simulation.loadsFit, Bool.and_eq_true] at fit
    split at ran
    · cases ran
    · next id next executed =>
      rw [executed] at fit
      have regroup : done ++ instruction :: rest = (done ++ [instruction]) ++ rest := by simp
      have new := Simulation.Recorded.id_not_mem distinct
      rw [regroup] at distinct ⊢
      obtain ⟨longer, further⟩ := valued.execute recorded new fit.1 executed
      exact ih further (recorded.execute new executed) distinct fit.2 ran

end Valued

end Machine

end ClassTrim
