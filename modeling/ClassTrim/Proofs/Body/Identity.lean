import Mathlib.Data.List.Nodup
import ClassTrim.Proofs.Body

/-!
# Identities

Instructions move whenever something is inserted or removed in front of them, and they are looked
up by their identities. `Performs` says what one call can do to a body. Three things follow for
any number of calls: the identities handed out are consecutive numbers, so that none is handed out
twice; a body holds what it held at first and what was created since, without what was removed;
and what was there at first and still is stands in the order in which it stood.

Since any body can be the first one, this compares any two moments in the life of a body.
-/

namespace ClassTrim.Body

/-- A call that edits a body. -/
inductive Call where
  | push (pc : Nat) (op : Op)
  | insertAfter (anchor : InstructionId) (op : Op)
  | remove (id : InstructionId)
deriving DecidableEq

/-- The identity that must be in the body for a call to succeed. -/
def Call.target? : Call → Option InstructionId
  | .push _ _ => none
  | .insertAfter anchor _ => some anchor
  | .remove id => some id

/-- What a call answers: the identity of a new instruction, an instruction that was removed, or
why it failed. -/
inductive Answer where
  | issued (id : InstructionId)
  | removed (instruction : Instruction)
  | failed (fault : Fault)

namespace Answer

def issued? : Answer → Option InstructionId
  | .issued id => some id
  | _ => none

def removed? : Answer → Option Instruction
  | .removed instruction => some instruction
  | _ => none

end Answer

/-- The answer to a call, and the body that it leaves. -/
def perform (body : Body) : Call → Answer × Body
  | .push pc op => (.issued body.nextId, body.push pc op)
  | .insertAfter anchor op =>
    match body.insertAfter anchor op with
    | .error fault => (.failed fault, body)
    | .ok after => (.issued body.nextId, after)
  | .remove id =>
    match body.remove id with
    | .error fault => (.failed fault, body)
    | .ok (removed, after) => (.removed removed, after)

/-- The instruction that a call creates. -/
def created? (body : Body) : Call → Option Instruction
  | .push pc op => some ⟨body.nextId, pc, op⟩
  | .insertAfter anchor op => (body.get? anchor).map fun found => ⟨body.nextId, found.pc, op⟩
  | .remove _ => none

/-- The body after some calls. -/
def edited (body : Body) : List Call → Body
  | [] => body
  | call :: rest => (body.perform call).2.edited rest

/-- The answers to some calls. -/
def answers (body : Body) : List Call → List Answer
  | [] => []
  | call :: rest => (body.perform call).1 :: (body.perform call).2.answers rest

/-- The instructions that some calls create. -/
def created (body : Body) : List Call → List Instruction
  | [] => []
  | call :: rest => (body.created? call).toList ++ (body.perform call).2.created rest

/-- The instructions that some calls remove. -/
def removed (body : Body) (calls : List Call) : List Instruction :=
  (body.answers calls).filterMap Answer.removed?

/-- Everything that a call can do: what it creates, what it answers and what it leaves. -/
inductive Performs (before : Body) : Call → Option Instruction → Answer → Body → Prop where
  /-- A new instruction comes last. -/
  | push {after : Body} {pc : Nat} {op : Op}
      (shape : after.instructions = before.instructions ++ [⟨before.nextId, pc, op⟩])
      (counted : after.nextId = before.nextId + 1) :
      Performs before (.push pc op) (some ⟨before.nextId, pc, op⟩) (.issued before.nextId) after
  /-- A new instruction comes directly behind another one, whose program counter it has. -/
  | insert {after : Body} {op : Op} {anchor : Instruction} {front rear : List Instruction}
      (split : before.instructions = front ++ anchor :: rear)
      (shape : after.instructions = front ++ anchor :: ⟨before.nextId, anchor.pc, op⟩ :: rear)
      (counted : after.nextId = before.nextId + 1) :
      Performs before (.insertAfter anchor.id op) (some ⟨before.nextId, anchor.pc, op⟩)
        (.issued before.nextId) after
  /-- An instruction is taken out. -/
  | remove {after : Body} {instruction : Instruction} {front rear : List Instruction}
      (split : before.instructions = front ++ instruction :: rear)
      (shape : after.instructions = front ++ rear) (counted : after.nextId = before.nextId) :
      Performs before (.remove instruction.id) none (.removed instruction) after
  /-- An identity is not in the body, and nothing is changed. -/
  | miss {call : Call} {id : InstructionId} (target : call.target? = some id)
      (absent : ∀ instruction ∈ before.instructions, instruction.id ≠ id) :
      Performs before call none (.failed (.instructionNotFound id)) before

variable {body before after origin : Body} {call : Call} {answer : Answer}
  {new : Option Instruction} {instruction : Instruction} {id : InstructionId} {calls : List Call}

/-- Nothing is found under an identity exactly if no instruction has it. -/
theorem get?_eq_none_iff :
    body.get? id = none ↔ ∀ instruction ∈ body.instructions, instruction.id ≠ id := by
  simp [get?]

/-- Every call does what its description says. -/
theorem performs (body : Body) (call : Call) :
    Performs body call (body.created? call) (body.perform call).1 (body.perform call).2 := by
  cases call with
  | push pc op => exact .push rfl rfl
  | insertAfter anchor op =>
    cases found : body.get? anchor with
    | none =>
      simp only [created?, perform, insertAfter, found, Option.map_none]
      exact .miss rfl (get?_eq_none_iff.mp found)
    | some instruction =>
      obtain ⟨member, rfl⟩ := get?_eq_some_iff.mp found
      obtain ⟨front, rear, split⟩ := List.append_of_mem member
      simp only [created?, perform, insertAfter, found, Option.map_some]
      exact .insert split (instructions_splice split op) rfl
  | remove id =>
    cases found : body.get? id with
    | none =>
      simp only [created?, perform, remove, found]
      exact .miss rfl (get?_eq_none_iff.mp found)
    | some instruction =>
      obtain ⟨member, rfl⟩ := get?_eq_some_iff.mp found
      obtain ⟨front, rear, split⟩ := List.append_of_mem member
      simp only [created?, perform, remove, found]
      exact .remove split (instructions_erase split) rfl

namespace Performs

/-- The identity that an answer issues is that of the new instruction, if there is one. -/
theorem issued?_eq (performs : Performs before call new answer after) :
    answer.issued? = new.map Instruction.id := by
  cases performs <;> rfl

/-- The next identity advances by one for a new instruction and stays for any other call. -/
theorem nextId_eq (performs : Performs before call new answer after) :
    after.nextId = before.nextId + new.toList.length := by
  cases performs with
  | push _ counted => exact counted
  | insert _ _ counted => exact counted
  | remove _ _ counted => exact counted
  | miss => rfl

/-- A new instruction has the identity that was next. -/
theorem id_eq (performs : Performs before call (some instruction) answer after) :
    instruction.id = before.nextId := by
  cases performs <;> rfl

/-- What a call removes stood in the body. -/
theorem mem_of_removed? (performs : Performs before call new answer after)
    (removed : answer.removed? = some instruction) : instruction ∈ before.instructions := by
  cases performs with
  | push => cases removed
  | insert => cases removed
  | remove split =>
    cases removed
    simp [split]
  | miss => cases removed

/-- A call adds what it creates and takes away what it removes. -/
theorem mem_iff (performs : Performs before call new answer after) :
    instruction ∈ after.instructions ↔
      (instruction ∈ before.instructions ∨ new = some instruction) ∧
        answer.removed? ≠ some instruction := by
  cases performs with
  | push shape => simp [shape, Answer.removed?, eq_comm]
  | insert split shape =>
    simp only [split, shape, List.mem_append, List.mem_cons, Answer.removed?, Option.some.injEq,
      ne_eq, reduceCtorEq, not_false_eq_true, and_true]
    tauto
  | remove split shape =>
    simp only [shape, split, List.mem_append, List.mem_cons, Answer.removed?, reduceCtorEq,
      or_false, Option.some.injEq, ne_eq]
    constructor
    · rintro (before | behind)
      · exact ⟨.inl before, fun same => id_ne_of_mem_front split before (same ▸ rfl)⟩
      · exact ⟨.inr (.inr behind), fun same => id_ne_of_mem_rear split behind (same ▸ rfl)⟩
    · rintro ⟨before | rfl | behind, other⟩
      · exact .inl before
      · exact absurd rfl other
      · exact .inr behind
  | miss => simp [Answer.removed?]

/-- What a call does not remove keeps its order. -/
theorem sublist (performs : Performs before call new answer after) :
    (before.instructions.filter fun old => decide (answer.removed? ≠ some old)).Sublist
      after.instructions := by
  cases performs with
  | push shape =>
    rw [shape]
    exact List.filter_sublist.trans (List.sublist_append_left _ _)
  | insert split shape =>
    rw [shape, split]
    exact List.filter_sublist.trans (((List.sublist_cons_self _ _).cons_cons _).append_left _)
  | remove split shape =>
    rw [shape, split, List.filter_append,
      List.filter_cons_of_neg (by simp [Answer.removed?])]
    exact List.filter_sublist.append List.filter_sublist
  | miss => exact List.filter_sublist

end Performs

/-- The instructions that some calls create get consecutive identities. -/
theorem map_id_created (origin : Body) (calls : List Call) :
    (origin.created calls).map Instruction.id =
      List.range' origin.nextId (origin.created calls).length := by
  induction calls generalizing origin with
  | nil => rfl
  | cons call rest ih =>
    have step := origin.performs call
    have later := ih (origin.perform call).2
    rw [step.nextId_eq] at later
    cases new : origin.created? call with
    | none => simpa [created, new] using later
    | some instruction =>
      rw [new] at step later
      simpa [created, new, step.id_eq, List.range'_succ] using later

/-- After any calls the next identity has advanced by the number of instructions created. -/
theorem nextId_edited (origin : Body) (calls : List Call) :
    (origin.edited calls).nextId = origin.nextId + (origin.created calls).length := by
  induction calls generalizing origin with
  | nil => rfl
  | cons call rest ih =>
    rw [edited, ih, (origin.performs call).nextId_eq, created, List.length_append, Nat.add_assoc]

/-- What is created is younger than what is there. -/
theorem le_id_of_mem_created (member : instruction ∈ origin.created calls) :
    origin.nextId ≤ instruction.id := by
  have named := List.mem_map_of_mem (f := Instruction.id) member
  rw [map_id_created, List.mem_range'_1] at named
  exact named.1

/-- The identities issued are those of the instructions created, in order. -/
theorem filterMap_issued?_answers (origin : Body) (calls : List Call) :
    (origin.answers calls).filterMap Answer.issued? =
      (origin.created calls).map Instruction.id := by
  induction calls generalizing origin with
  | nil => rfl
  | cons call rest ih =>
    rw [answers, created, List.map_append, ← ih, List.filterMap_cons,
      (origin.performs call).issued?_eq]
    cases origin.created? call <;> rfl

/-- What calls remove is what the first of them removes or what the others do. -/
theorem mem_removed_cons {rest : List Call} :
    instruction ∈ origin.removed (call :: rest) ↔
      (origin.perform call).1.removed? = some instruction ∨
        instruction ∈ (origin.perform call).2.removed rest := by
  simp [removed, answers]

/-- A body holds what it held and what was created, without what was removed. -/
theorem mem_edited_iff :
    instruction ∈ (origin.edited calls).instructions ↔
      (instruction ∈ origin.instructions ∨ instruction ∈ origin.created calls) ∧
        instruction ∉ origin.removed calls := by
  induction calls generalizing origin with
  | nil => simp [edited, created, removed, answers]
  | cons call rest ih =>
    have step := origin.performs call
    -- Nothing that is created later can be what was removed now.
    have apart : instruction ∈ (origin.perform call).2.created rest →
        (origin.perform call).1.removed? ≠ some instruction := by
      intro later removed
      have below := origin.issued instruction (step.mem_of_removed? removed)
      have above := le_id_of_mem_created later
      rw [step.nextId_eq] at above
      exact absurd below (Nat.not_lt.mpr (Nat.le_trans (Nat.le_add_right _ _) above))
    rw [edited, ih, step.mem_iff, mem_removed_cons, created, List.mem_append, Option.mem_toList]
    tauto

/-- What was there and was not removed keeps its order. -/
theorem sublist_edited (origin : Body) (calls : List Call) :
    (origin.instructions.filter fun old => decide (old ∉ origin.removed calls)).Sublist
      (origin.edited calls).instructions := by
  induction calls generalizing origin with
  | nil => exact List.filter_sublist
  | cons call rest ih =>
    have split : origin.instructions.filter
          (fun old => decide (old ∉ origin.removed (call :: rest))) =
        (origin.instructions.filter
            (fun old => decide ((origin.perform call).1.removed? ≠ some old))).filter
          (fun old => decide (old ∉ (origin.perform call).2.removed rest)) := by
      simp only [List.filter_filter, mem_removed_cons, not_or, Bool.decide_and, Bool.and_comm]
    rw [split, edited]
    exact ((origin.performs call).sublist.filter _).trans (ih _)

/-- A list without repetitions has only one sublist with given members. -/
theorem filter_mem_of_sublist {kept all : List Instruction} (sublist : kept.Sublist all)
    (distinct : all.Nodup) : all.filter (fun old => decide (old ∈ kept)) = kept := by
  induction sublist with
  | slnil => rfl
  | cons head inner ih =>
    obtain ⟨outside, distinct⟩ := List.nodup_cons.mp distinct
    rw [List.filter_cons_of_neg (by simpa using fun member => outside (inner.subset member)),
      ih distinct]
  | cons_cons head inner ih =>
    obtain ⟨outside, distinct⟩ := List.nodup_cons.mp distinct
    rw [List.filter_cons_of_pos (by simp)]
    congr 1
    rw [← ih distinct]
    apply List.filter_congr
    intro old member
    have other : old ≠ head := fun same => outside (same ▸ member)
    simp [other, member]

/-- No instruction stands in a body twice, since no identity does. -/
theorem nodup_instructions (body : Body) : body.instructions.Nodup :=
  body.distinct.of_map _

/-- The place that a lookup finds is the place of the instruction. -/
theorem position?_eq_some_iff {place : Nat} :
    body.position? id = some place ↔
      ∃ instruction, body.instructions[place]? = some instruction ∧ instruction.id = id := by
  rw [position?, List.findIdx?_eq_some_iff_getElem]
  constructor
  · rintro ⟨bound, found, -⟩
    exact ⟨_, List.getElem?_eq_getElem bound, by simpa using found⟩
  · rintro ⟨instruction, here, rfl⟩
    obtain ⟨bound, rfl⟩ := List.getElem?_eq_some_iff.mp here
    refine ⟨bound, by simp, ?_⟩
    intro earlier before
    have inside : earlier < body.instructions.length := Nat.lt_trans before bound
    simp only [decide_eq_true_eq]
    intro same
    have alike := eq_of_id_eq (List.getElem_mem inside) (List.getElem_mem bound) same
    exact Nat.ne_of_lt before (body.nodup_instructions.getElem_inj_iff.mp alike)

/-- What calls do to a body, told by identities. -/
structure Stable (origin : Body) (calls : List Call) : Prop where
  distinct : ((origin.edited calls).instructions.map Instruction.id).Nodup
  below : ∀ instruction ∈ (origin.edited calls).instructions,
    instruction.id < (origin.edited calls).nextId
  /-- Every instruction that is created gets the identity that the call answers, and these are
  consecutive numbers, the first of which is larger than all that the body has issued. -/
  named : (origin.created calls).map Instruction.id =
    (origin.answers calls).filterMap Answer.issued?
  consecutive : (origin.answers calls).filterMap Answer.issued? =
    List.range' origin.nextId (origin.created calls).length
  /-- The counter has moved by as many, so that it fits a word for as long as their number
  does. -/
  counted : (origin.edited calls).nextId = origin.nextId + (origin.created calls).length
  /-- An identity belongs to the instruction that it was given to until that is removed, and to
  no other. -/
  held : ∀ id instruction, (origin.edited calls).get? id = some instruction ↔
    instruction.id = id ∧
      (instruction ∈ origin.instructions ∨ instruction ∈ origin.created calls) ∧
        instruction ∉ origin.removed calls
  placed : ∀ id place, (origin.edited calls).position? id = some place ↔
    ∃ instruction, (origin.edited calls).instructions[place]? = some instruction ∧
      instruction.id = id
  /-- What was there at first and is still there has not changed places. -/
  ordered : (origin.edited calls).instructions.filter
      (fun old => decide (old ∈ origin.instructions)) =
    origin.instructions.filter fun old => decide (old ∉ origin.removed calls)

/-- Identities are stable. Whatever calls are made on a body, each of them appends an instruction,
inserts one directly behind its anchor, takes one out, or fails for want of the identity that it
names and changes nothing; and from any moment to any later one no identity is given out twice, and
every instruction keeps its identity, its contents and its order among the others until it is
removed. -/
theorem identities_stable (origin : Body) (calls : List Call) :
    origin.Stable calls ∧
      ∀ call, Performs (origin.edited calls) call ((origin.edited calls).created? call)
        ((origin.edited calls).perform call).1 ((origin.edited calls).perform call).2 := by
  refine ⟨?_, (origin.edited calls).performs⟩
  have survives : (origin.edited calls).instructions.filter
        (fun old => decide (old ∈ origin.instructions)) =
      (origin.edited calls).instructions.filter fun old =>
        decide (old ∈ origin.instructions.filter
          fun old => decide (old ∉ origin.removed calls)) := by
    apply List.filter_congr
    intro old member
    have spared := (mem_edited_iff.mp member).2
    simp [spared]
  constructor
  · exact (origin.edited calls).distinct
  · exact (origin.edited calls).issued
  · exact (filterMap_issued?_answers origin calls).symm
  · rw [filterMap_issued?_answers, map_id_created]
  · exact nextId_edited origin calls
  · intro id instruction
    rw [get?_eq_some_iff, mem_edited_iff, and_comm]
  · exact fun id place => position?_eq_some_iff
  · rw [survives]
    exact filter_mem_of_sublist (sublist_edited origin calls)
      (origin.edited calls).nodup_instructions

end ClassTrim.Body
