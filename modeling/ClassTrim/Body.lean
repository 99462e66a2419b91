import ClassTrim.Fault

/-!
# Method bodies

A body is a sequence of instructions. Identities are handed out in increasing
order and never twice, so an identity stays valid for as long as its instruction
is in the body, whatever is inserted or removed around it.
-/

namespace ClassTrim

/-- The instructions of a method. Identities tell the instructions apart, and every
one of them was handed out by the body. -/
structure Body where
  /-- The number of local slots that the body declares. -/
  maxLocals : UInt16
  instructions : List Instruction
  /-- The identity that the next instruction gets. -/
  nextId : InstructionId
  distinct : (instructions.map Instruction.id).Nodup
  issued : ∀ instruction ∈ instructions, instruction.id < nextId
deriving DecidableEq

namespace Body

/-- A body without instructions. -/
def empty (maxLocals : UInt16) : Body where
  maxLocals
  instructions := []
  nextId := 0
  distinct := List.nodup_nil
  issued := by simp

/-- A body of operations that have their program counters; identities are counted
from zero. -/
def ofPlaced (maxLocals : UInt16) (placed : List (Op × Nat)) : Body where
  maxLocals
  instructions := placed.mapIdx fun index (op, pc) => ⟨index, pc, op⟩
  nextId := placed.length
  distinct := by
    have counted : (placed.mapIdx fun index (op, pc) => Instruction.mk index pc op).map
        Instruction.id = List.range placed.length := by
      apply List.ext_getElem <;> simp
    rw [counted]
    exact List.nodup_range
  issued := by
    intro instruction member
    obtain ⟨index, bound, rfl⟩ := List.mem_mapIdx.mp member
    exact bound

/-- The number of instructions. -/
def size (body : Body) : Nat :=
  body.instructions.length

/-- The instruction with an identity. -/
def get? (body : Body) (id : InstructionId) : Option Instruction :=
  body.instructions.find? (·.id = id)

/-- The place of the instruction with an identity. -/
def position? (body : Body) (id : InstructionId) : Option Nat :=
  body.instructions.findIdx? (·.id = id)

/-- Whether the body has a branch. -/
def hasBranches (body : Body) : Bool :=
  body.instructions.any (·.op.isBranch)

/-- The program counters that branches lead to, each once and in increasing
order. -/
def branchTargets (body : Body) : List Nat :=
  (body.instructions.filterMap (·.op.branchTarget?)).eraseDups.mergeSort

/-- The next identity belongs to no instruction, since it lies above all of them. -/
theorem nextId_not_mem (body : Body) : body.nextId ∉ body.instructions.map Instruction.id := by
  intro member
  obtain ⟨instruction, inside, same⟩ := List.mem_map.mp member
  exact Nat.lt_irrefl _ (same ▸ body.issued instruction inside)

/-- Appends an instruction; its identity is the body's next one. -/
def push (body : Body) (pc : Nat) (op : Op) : Body where
  maxLocals := body.maxLocals
  instructions := body.instructions ++ [⟨body.nextId, pc, op⟩]
  nextId := body.nextId + 1
  distinct := by
    rw [List.map_append]
    refine List.nodup_append.mpr ⟨body.distinct, by simp, ?_⟩
    intro id member other single same
    have fresh : other = body.nextId := by simpa using single
    rw [same, fresh] at member
    exact body.nextId_not_mem member
  issued := by
    intro instruction member
    rcases List.mem_append.mp member with inside | last
    · exact Nat.lt_succ_of_lt (body.issued instruction inside)
    · rw [List.mem_singleton.mp last]
      exact Nat.lt_succ_self _

/-- Inserts an instruction behind the first one with a given identity. It shares
the program counter of that instruction. -/
def spliceAfter (anchor fresh : InstructionId) (op : Op) : List Instruction → List Instruction
  | [] => []
  | head :: rest =>
    if head.id = anchor then head :: ⟨fresh, head.pc, op⟩ :: rest
    else head :: spliceAfter anchor fresh op rest

/-- An insertion brings in one instruction and no other, and that one has the new identity. -/
theorem mem_or_fresh_of_mem_spliceAfter {anchor fresh : InstructionId} {op : Op}
    {instructions : List Instruction} {instruction : Instruction}
    (member : instruction ∈ spliceAfter anchor fresh op instructions) :
    instruction ∈ instructions ∨ instruction.id = fresh := by
  induction instructions with
  | nil => simp [spliceAfter] at member
  | cons head rest ih =>
    simp only [spliceAfter] at member
    split at member
    · simp only [List.mem_cons] at member
      rcases member with rfl | rfl | inside
      · exact .inl (List.mem_cons_self ..)
      · exact .inr rfl
      · exact .inl (List.mem_cons_of_mem _ inside)
    · rcases List.mem_cons.mp member with rfl | inside
      · exact .inl (List.mem_cons_self ..)
      · exact (ih inside).imp_left (List.mem_cons_of_mem _)

/-- A splice keeps identities distinct if the identity that it brings is new. -/
theorem nodup_spliceAfter (anchor fresh : InstructionId) (op : Op)
    (instructions : List Instruction) (distinct : (instructions.map Instruction.id).Nodup)
    (new : fresh ∉ instructions.map Instruction.id) :
    ((spliceAfter anchor fresh op instructions).map Instruction.id).Nodup := by
  induction instructions with
  | nil => exact distinct
  | cons head rest ih =>
    simp only [List.map_cons, List.nodup_cons] at distinct
    simp only [List.map_cons, List.mem_cons, not_or] at new
    simp only [spliceAfter]
    split
    · simp only [List.map_cons, List.nodup_cons, List.mem_cons, not_or]
      exact ⟨⟨fun same => new.1 same.symm, distinct.1⟩, new.2, distinct.2⟩
    · simp only [List.map_cons, List.nodup_cons]
      refine ⟨?_, ih distinct.2 new.2⟩
      intro member
      obtain ⟨instruction, inside, same⟩ := List.mem_map.mp member
      rcases mem_or_fresh_of_mem_spliceAfter inside with old | isFresh
      · exact distinct.1 (same ▸ List.mem_map_of_mem old)
      · exact new.1 (isFresh ▸ same)

/-- The body with an instruction spliced in behind the first one with a given
identity. The new instruction gets the body's next identity. -/
def splice (body : Body) (anchor : InstructionId) (op : Op) : Body where
  maxLocals := body.maxLocals
  instructions := spliceAfter anchor body.nextId op body.instructions
  nextId := body.nextId + 1
  distinct := nodup_spliceAfter anchor _ op _ body.distinct body.nextId_not_mem
  issued := by
    intro instruction member
    rcases mem_or_fresh_of_mem_spliceAfter member with old | isFresh
    · exact Nat.lt_succ_of_lt (body.issued instruction old)
    · exact isFresh ▸ Nat.lt_succ_self _

/-- Inserts an instruction directly behind another; its identity is the body's
next one. -/
def insertAfter (body : Body) (anchor : InstructionId) (op : Op) : Except Fault Body :=
  match body.get? anchor with
  | none => .error (.instructionNotFound anchor)
  | some _ => .ok (body.splice anchor op)

/-- The body without the instruction that has an identity. -/
def erase (body : Body) (id : InstructionId) : Body where
  maxLocals := body.maxLocals
  instructions := body.instructions.eraseP (·.id = id)
  nextId := body.nextId
  distinct := (List.eraseP_sublist.map Instruction.id).nodup body.distinct
  issued := fun instruction member => body.issued instruction (List.mem_of_mem_eraseP member)

/-- Removes an instruction and returns it. -/
def remove (body : Body) (id : InstructionId) : Except Fault (Instruction × Body) :=
  match body.get? id with
  | none => .error (.instructionNotFound id)
  | some removed => .ok (removed, body.erase id)

end Body

end ClassTrim
