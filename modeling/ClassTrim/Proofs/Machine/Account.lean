import ClassTrim.Proofs.Machine.Semantics
import ClassTrim.Proofs.Simulation.Thread
import ClassTrim.Provenance.Graph

/-!
# Accounts of a run

An account of a run says, for every instruction of a body, which values it pops and which
it pushes. If it is right (`Explains`), and the stack threads through the body accordingly,
then the trace and the end of the run can be read off the account without a stack.

An account survives the edits of a removal one by one, also while the body cannot be run.
Leaving out an instruction that is not observed and stores nothing changes nothing. Leaving
out a store to a slot that no load reads changes what the slots hold, but not what any load
finds.
-/

namespace ClassTrim

/-- What the values that an instruction pops mean, if every value is given a meaning. -/
def Graph.operands (graph : Graph) (meaning : ValueId → Machine.Value) (id : InstructionId) :
    List Machine.Value :=
  (graph.popsOf id).map meaning

/-- What the values that an instruction pushes mean. -/
def Graph.products (graph : Graph) (meaning : ValueId → Machine.Value) (id : InstructionId) :
    List Machine.Value :=
  (graph.pushesOf id).map meaning

namespace Machine

variable {world : World} {operands products : InstructionId → List Value} {count : Nat}
  {slots : Slots} {code front tail other : List Instruction} {instruction : Instruction}

/-- Every instruction finds what it needs among the values that it is said to pop, and
makes of them what it is said to push. -/
def Explains (world : World) (operands products : InstructionId → List Value) :
    Nat → Slots → List Instruction → Prop
  | _, _, [] => True
  | count, slots, instruction :: rest =>
    permits slots instruction.op (operands instruction.id) = true ∧
      products instruction.id =
        results world count slots instruction.op (operands instruction.id) ∧
      Explains world operands products
        (count + (observations instruction.op (operands instruction.id)).length)
        (stored slots instruction.op (operands instruction.id)) rest

/-- The trace and the end of a run, read off the values that instructions pop. -/
def account (operands : InstructionId → List Value) :
    List Observation → List Instruction → List Observation × Ending
  | trace, [] => (trace, .finished)
  | trace, instruction :: rest =>
    let extended := trace ++ observations instruction.op (operands instruction.id)
    match ending? instruction.op (operands instruction.id) with
    | some outcome => (extended, outcome)
    | none => account operands extended rest

/-- Whether code is explained depends on the operands and products of its own instructions. -/
theorem Explains.congr {otherOperands otherProducts : InstructionId → List Value}
    (explains : Explains world operands products count slots code)
    (sameOperands : ∀ instruction ∈ code, otherOperands instruction.id = operands instruction.id)
    (sameProducts : ∀ instruction ∈ code,
      otherProducts instruction.id = products instruction.id) :
    Explains world otherOperands otherProducts count slots code := by
  induction code generalizing count slots with
  | nil => trivial
  | cons instruction rest ih =>
    obtain ⟨permitted, made, further⟩ := explains
    have here := sameOperands instruction List.mem_cons_self
    refine ⟨?_, ?_, ?_⟩
    · rw [here]
      exact permitted
    · rw [here, sameProducts instruction List.mem_cons_self]
      exact made
    · rw [here]
      exact ih further (fun other member => sameOperands other (List.mem_cons_of_mem _ member))
        (fun other member => sameProducts other (List.mem_cons_of_mem _ member))

/-- The account of code depends on the operands of its own instructions. -/
theorem account_congr {otherOperands : InstructionId → List Value} {trace : List Observation}
    (same : ∀ instruction ∈ code, otherOperands instruction.id = operands instruction.id) :
    account otherOperands trace code = account operands trace code := by
  induction code generalizing trace with
  | nil => rfl
  | cons instruction rest ih =>
    simp only [account, same instruction List.mem_cons_self]
    split
    · rfl
    · exact ih fun other member => same other (List.mem_cons_of_mem _ member)

/-- What the account says about an instruction of the body is right there. -/
theorem Explains.of_mem (explains : Explains world operands products count slots code)
    (member : instruction ∈ code) :
    ∃ before there, permits there instruction.op (operands instruction.id) = true ∧
      products instruction.id =
        results world before there instruction.op (operands instruction.id) := by
  induction code generalizing count slots with
  | nil => cases member
  | cons head rest ih =>
    obtain ⟨permitted, made, further⟩ := explains
    rcases List.mem_cons.mp member with rfl | inside
    · exact ⟨count, slots, permitted, made⟩
    · exact ih further inside

/-- The number of observations, and the slots, behind a piece of code. -/
def passed (operands : InstructionId → List Value) :
    Nat × Slots → List Instruction → Nat × Slots
  | state, [] => state
  | (count, slots), instruction :: rest =>
    passed operands
      (count + (observations instruction.op (operands instruction.id)).length,
        stored slots instruction.op (operands instruction.id)) rest

/-- Passing code is passing its front and then its tail. -/
theorem passed_append (state : Nat × Slots) :
    passed operands state (front ++ tail) = passed operands (passed operands state front) tail := by
  induction front generalizing state with
  | nil => rfl
  | cons instruction rest ih => exact ih _

/-- What is passed depends on the operands of the instructions passed. -/
theorem passed_congr {otherOperands : InstructionId → List Value}
    (same : ∀ instruction ∈ code, otherOperands instruction.id = operands instruction.id)
    (state : Nat × Slots) : passed otherOperands state code = passed operands state code := by
  induction code generalizing state with
  | nil => rfl
  | cons instruction rest ih =>
    simp only [passed, same instruction List.mem_cons_self]
    exact ih (fun other member => same other (List.mem_cons_of_mem _ member)) _

/-- An account may go on where another one stopped. -/
theorem Explains.append (explains : Explains world operands products count slots front)
    (later : Explains world operands products (passed operands (count, slots) front).1
      (passed operands (count, slots) front).2 tail) :
    Explains world operands products count slots (front ++ tail) := by
  induction front generalizing count slots with
  | nil => exact later
  | cons instruction rest ih =>
    obtain ⟨permitted, made, further⟩ := explains
    exact ⟨permitted, made, ih further later⟩

/-- What follows may be exchanged for something that can be explained from the same
state. -/
theorem Explains.append_mono
    (explains : Explains world operands products count slots (front ++ tail))
    (later : ∀ count slots, Explains world operands products count slots tail →
      Explains world operands products count slots other) :
    Explains world operands products count slots (front ++ other) := by
  induction front generalizing count slots with
  | nil => exact later count slots explains
  | cons instruction rest ih =>
    obtain ⟨permitted, made, further⟩ := explains
    exact ⟨permitted, made, ih further⟩

/-- Tails with one account have one behind any front. -/
theorem account_append_congr {trace : List Observation}
    (same : ∀ trace, account operands trace other = account operands trace tail) :
    account operands trace (front ++ other) = account operands trace (front ++ tail) := by
  induction front generalizing trace with
  | nil => exact same trace
  | cons instruction rest ih =>
    simp only [List.cons_append, account]
    split
    · rfl
    · exact ih

/-- An operation that adds nothing to the trace and does not end a run. -/
structure Unobserved (op : Op) : Prop where
  silent : op.isObserved = false
  noEnding : ∀ operands, ending? op operands = none

/-- What has no side effect is not observed. -/
theorem Unobserved.of_pure {op : Op} (pure : op.hasSideEffect = false) : Unobserved op where
  silent := by cases op <;> simp_all [Op.hasSideEffect, Op.isObserved]
  noEnding := by
    intro operands
    cases op with
    | arith operation kind =>
      simp only [Op.hasSideEffect] at pure
      simp [ending?, pure]
    | ret | athrow => cases pure
    | _ => rfl

/-- A store is not observed. -/
theorem Unobserved.store (kind : LocalKind) (index : UInt16) : Unobserved (.store kind index) :=
  ⟨rfl, fun _ => rfl⟩

/-- What is not observed adds nothing to the trace. -/
theorem Unobserved.observations_eq {op : Op} (unobserved : Unobserved op) (values : List Value) :
    observations op values = [] := by
  simp [observations, unobserved.silent]

/-- What is not observed may be left out of an account. -/
theorem Unobserved.account_cons (unobserved : Unobserved instruction.op)
    (trace : List Observation) :
    account operands trace (instruction :: tail) = account operands trace tail := by
  simp [account, unobserved.noEnding, unobserved.observations_eq]

/-- An operation without side effects leaves the slots alone. -/
theorem stored_of_pure {op : Op} (pure : op.hasSideEffect = false) (slots : Slots)
    (values : List Value) : stored slots op values = slots := by
  cases op with
  | store => cases pure
  | _ => rfl

/-- An instruction without side effects may be left out. -/
theorem Explains.of_cons_pure (pure : instruction.op.hasSideEffect = false)
    (explains : Explains world operands products count slots (instruction :: tail)) :
    Explains world operands products count slots tail := by
  have further := explains.2.2
  rwa [(Unobserved.of_pure pure).observations_eq, stored_of_pure pure] at further

/-- Some load reads a slot. -/
def Reads (code : List Instruction) (place : Nat) : Prop :=
  ∃ instruction ∈ code, ∃ kind index, instruction.op = .load kind index ∧ index.toNat = place

/-- What the loads find in some slots they find in others too. -/
def Slots.Within (code : List Instruction) (lower upper : Slots) : Prop :=
  ∀ place, Reads code place → ∀ value, lower place = some value → upper place = some value

namespace Slots.Within

variable {lower upper : Slots}

/-- What the loads of some code find, those of its tail find. -/
theorem of_cons (within : lower.Within (instruction :: tail) upper) : lower.Within tail upper := by
  rintro place ⟨reader, member, rest⟩
  exact within place ⟨reader, List.mem_cons_of_mem _ member, rest⟩

/-- A slot that no load reads may be written in one of two runs only: a write fills its own
slot, and can only empty others. -/
theorem of_write {index : Nat} (unread : ¬Reads code index) (slots : Slots) (value : Value) :
    (slots.write index value).Within code slots := by
  intro place reads found there
  have apart : place ≠ index := fun same => unread (same ▸ reads)
  simp only [write, if_neg apart] at there
  split at there
  · cases there
  · split at there
    · cases there
    · exact there

/-- A value may be written to a slot in both runs. A value that the write destroys in the
second run only was not there in the first. -/
theorem write (within : lower.Within code upper) (index : Nat) (value : Value) :
    (lower.write index value).Within code (upper.write index value) := by
  intro place reads found there
  simp only [Slots.write] at there ⊢
  by_cases isHere : place = index
  · rw [if_pos isHere] at there ⊢
    exact there
  · rw [if_neg isHere] at there ⊢
    split at there
    · cases there
    · next untouched =>
      rw [if_neg untouched]
      split at there
      · cases there
      · next uncut =>
        have above := within place reads found there
        rw [there] at uncut
        rw [above, if_neg uncut]

/-- The same store into both keeps the one within the other. -/
theorem stored (within : lower.Within code upper) (op : Op) (values : List Value) :
    (Machine.stored lower op values).Within code (Machine.stored upper op values) := by
  cases op with
  | store kind index =>
    cases values with
    | nil => exact within
    | cons value rest => exact within.write _ _
  | _ => exact within

/-- A load that finds what it needs finds the same in the slots above. -/
theorem loaded (within : lower.Within (instruction :: tail) upper) {values : List Value}
    (permitted : permits lower instruction.op values = true) :
    permits upper instruction.op values = true ∧
      ∀ world count, results world count upper instruction.op values =
        results world count lower instruction.op values := by
  cases op : instruction.op with
  | load kind index =>
    rw [op] at permitted
    simp only [permits, Bool.and_eq_true, Option.any_eq_true] at permitted ⊢
    obtain ⟨shape, value, there, fits⟩ := permitted
    have above := within index.toNat
      ⟨instruction, List.mem_cons_self, kind, index, op, rfl⟩ value there
    exact ⟨⟨shape, value, above, fits⟩, by simp [results, there, above]⟩
  | field access target =>
    rw [op] at permitted
    exact ⟨permitted, fun _ _ => by cases access <;> rfl⟩
  | _ =>
    rw [op] at permitted
    exact ⟨permitted, fun _ _ => rfl⟩

end Slots.Within

/-- An account stays right if loads find what they found. -/
theorem Explains.mono {lower upper : Slots}
    (explains : Explains world operands products count lower code)
    (within : lower.Within code upper) : Explains world operands products count upper code := by
  induction code generalizing count lower upper with
  | nil => trivial
  | cons instruction rest ih =>
    obtain ⟨permitted, made, further⟩ := explains
    obtain ⟨stillPermitted, same⟩ := within.loaded permitted
    refine ⟨stillPermitted, ?_, ih further (within.of_cons.stored _ _)⟩
    rw [same]
    exact made

/-- A store to a slot that no load reads may be left out. -/
theorem Explains.of_cons_store {kind : LocalKind} {index : UInt16}
    (op : instruction.op = .store kind index) (unread : ¬Reads tail index.toNat)
    (explains : Explains world operands products count slots (instruction :: tail)) :
    Explains world operands products count slots tail := by
  have further := explains.2.2
  rw [op, (Unobserved.store kind index).observations_eq, List.length_nil, Nat.add_zero] at further
  cases values : operands instruction.id with
  | nil =>
    rw [values] at further
    exact further
  | cons value rest =>
    rw [values] at further
    exact further.mono (.of_write unread slots value)

/-- An instruction that only takes a value may be put in. -/
theorem Explains.cons_discard {value : Value}
    (op : instruction.op = .pop ∨ (instruction.op = .pop2 ∧ value.isWide = true))
    (taken : operands instruction.id = [value]) (nothing : products instruction.id = [])
    (explains : Explains world operands products count slots tail) :
    Explains world operands products count slots (instruction :: tail) := by
  rcases op with narrow | ⟨isWide, wide⟩
  · refine ⟨?_, ?_, ?_⟩
    · simp [permits, narrow, taken, Op.effect, Op.needsWideTop]
    · rw [nothing, narrow]
      rfl
    · rw [narrow]
      exact explains
  · refine ⟨?_, ?_, ?_⟩
    · simp [permits, isWide, taken, Op.effect, wide]
    · rw [nothing, isWide]
      rfl
    · rw [isWide]
      exact explains

end Machine

end ClassTrim
