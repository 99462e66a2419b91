import ClassTrim.Body

/-!
# Editing bodies

An instruction of a body splits it into what stands in front and what stands behind.
Erasing the instruction joins the two pieces, and splicing another one in puts it at the
head of the second.
-/

namespace ClassTrim.Body

variable {body : Body} {instruction : Instruction} {front rear : List Instruction}

/-- Identities tell the instructions of a body apart. -/
theorem eq_of_id_eq {other : Instruction} (member : instruction ∈ body.instructions)
    (otherMember : other ∈ body.instructions) (same : instruction.id = other.id) :
    instruction = other := by
  obtain ⟨index, present⟩ := List.mem_iff_getElem?.mp member
  obtain ⟨place, found⟩ := List.mem_iff_getElem?.mp otherMember
  have first : (body.instructions.map Instruction.id)[index]? = some instruction.id := by
    rw [List.getElem?_map, present, Option.map_some]
  have second : (body.instructions.map Instruction.id)[place]? = some instruction.id := by
    rw [List.getElem?_map, found, Option.map_some, same]
  obtain ⟨bound, _⟩ := List.getElem?_eq_some_iff.mp first
  have samePlace : index = place :=
    (List.getElem?_inj bound body.distinct).mp (first.trans second.symm)
  rw [samePlace, found, Option.some.injEq] at present
  exact present.symm

/-- What is found under an identity is the instruction of the body that has it, since no two share
one. -/
theorem get?_eq_some_iff {id : InstructionId} :
    body.get? id = some instruction ↔ instruction ∈ body.instructions ∧ instruction.id = id := by
  constructor
  · intro found
    exact ⟨List.mem_of_find?_eq_some found, by simpa using List.find?_some found⟩
  · rintro ⟨member, rfl⟩
    cases found : body.get? instruction.id with
    | none =>
      have absent := List.find?_eq_none.mp found instruction member
      simp at absent
    | some other =>
      have sameId : other.id = instruction.id := by simpa using List.find?_some found
      rw [eq_of_id_eq (List.mem_of_find?_eq_some found) member sameId]

/-- In front of an instruction stand instructions with other identities. -/
theorem id_ne_of_mem_front (split : body.instructions = front ++ instruction :: rear)
    {other : Instruction} (member : other ∈ front) : other.id ≠ instruction.id := by
  have distinct := body.distinct
  rw [split, List.map_append] at distinct
  exact (List.nodup_append.mp distinct).2.2 _ (List.mem_map_of_mem member) _ (by simp)

/-- Behind an instruction stand instructions with other identities. -/
theorem id_ne_of_mem_rear (split : body.instructions = front ++ instruction :: rear)
    {other : Instruction} (member : other ∈ rear) : other.id ≠ instruction.id := by
  have distinct := body.distinct
  rw [split, List.map_append] at distinct
  have behind := (List.nodup_append.mp distinct).2.1
  rw [List.map_cons] at behind
  intro same
  exact (List.nodup_cons.mp behind).1 (same ▸ List.mem_map_of_mem member)

/-- Erasing an instruction joins what stands before it to what stands behind it. -/
theorem instructions_erase (split : body.instructions = front ++ instruction :: rear) :
    (body.erase instruction.id).instructions = front ++ rear := by
  have missed : ∀ other ∈ front, ¬decide (other.id = instruction.id) = true := by
    intro other member
    simpa using id_ne_of_mem_front split member
  show body.instructions.eraseP (·.id = instruction.id) = front ++ rear
  rw [split, List.eraseP_append_right _ missed]
  simp

/-- Erasing by identity erases this one instruction and no other. -/
theorem instructions_erase_eq_filter (member : instruction ∈ body.instructions) :
    (body.erase instruction.id).instructions =
      body.instructions.filter (fun other => decide (other.id ≠ instruction.id)) := by
  obtain ⟨front, rear, split⟩ := List.append_of_mem member
  have before : front.filter (fun other => decide (other.id ≠ instruction.id)) = front :=
    List.filter_eq_self.mpr fun other inside => decide_eq_true (id_ne_of_mem_front split inside)
  have behind : rear.filter (fun other => decide (other.id ≠ instruction.id)) = rear :=
    List.filter_eq_self.mpr fun other inside => decide_eq_true (id_ne_of_mem_rear split inside)
  rw [instructions_erase split, split, List.filter_append, before, List.filter_cons, behind]
  simp

/-- The search for the place of an insertion passes over instructions of other identities. -/
theorem spliceAfter_append {anchor fresh : InstructionId} {op : Op}
    (missed : ∀ other ∈ front, other.id ≠ anchor) :
    spliceAfter anchor fresh op (front ++ rear) = front ++ spliceAfter anchor fresh op rear := by
  induction front with
  | nil => rfl
  | cons head rest ih =>
    simp only [List.cons_append, spliceAfter, if_neg (missed head List.mem_cons_self)]
    rw [ih fun other member => missed other (List.mem_cons_of_mem _ member)]

/-- An insertion puts the new instruction right behind its anchor, at the same program counter. -/
theorem instructions_splice (split : body.instructions = front ++ instruction :: rear) (op : Op) :
    (body.splice instruction.id op).instructions =
      front ++ instruction :: ⟨body.nextId, instruction.pc, op⟩ :: rear := by
  show spliceAfter instruction.id body.nextId op body.instructions = _
  rw [split, spliceAfter_append fun other => id_ne_of_mem_front split]
  simp [spliceAfter]

/-- What is spliced in does not come between two neighbours, unless it is to stand behind the
first of them. -/
theorem infix_spliceAfter {anchor fresh : InstructionId} {op : Op} {first second : Instruction}
    {instructions : List Instruction} (neighbours : [first, second] <:+: instructions)
    (apart : first.id ≠ anchor) :
    [first, second] <:+: spliceAfter anchor fresh op instructions := by
  induction instructions with
  | nil => simp at neighbours
  | cons head rest ih =>
    rcases List.infix_cons_iff.mp neighbours with here | later
    · obtain ⟨tail, shape⟩ := here
      simp only [List.cons_append, List.nil_append, List.cons.injEq] at shape
      obtain ⟨rfl, rfl⟩ := shape
      simp only [spliceAfter, if_neg apart]
      split
      · exact (List.prefix_append [first, second] _).isInfix
      · exact (List.prefix_append [first, second] _).isInfix
    · simp only [spliceAfter]
      split
      · exact List.infix_cons (List.infix_cons later)
      · exact List.infix_cons (ih later)

/-- What is left after an erasure are the instructions of other identities. -/
theorem mem_erase (member : instruction ∈ body.instructions) {other : Instruction} :
    other ∈ (body.erase instruction.id).instructions ↔
      other ∈ body.instructions ∧ other.id ≠ instruction.id := by
  obtain ⟨front, rear, split⟩ := List.append_of_mem member
  rw [instructions_erase split, split]
  constructor
  · intro inside
    rcases List.mem_append.mp inside with before | behind
    · exact ⟨List.mem_append_left _ before, id_ne_of_mem_front split before⟩
    · exact ⟨List.mem_append_right _ (List.mem_cons_of_mem _ behind),
        id_ne_of_mem_rear split behind⟩
  · rintro ⟨inside, distinct⟩
    rcases List.mem_append.mp inside with before | behind
    · exact List.mem_append_left _ before
    · rcases List.mem_cons.mp behind with rfl | behind
      · exact absurd rfl distinct
      · exact List.mem_append_right _ behind

/-- After an insertion there are the old instructions and the new one. -/
theorem mem_splice (member : instruction ∈ body.instructions) {op : Op} {other : Instruction} :
    other ∈ (body.splice instruction.id op).instructions ↔
      other ∈ body.instructions ∨ other = ⟨body.nextId, instruction.pc, op⟩ := by
  obtain ⟨front, rear, split⟩ := List.append_of_mem member
  rw [instructions_splice split, split]
  simp only [List.mem_append, List.mem_cons]
  constructor
  · rintro (before | rfl | new | behind)
    · exact .inl (.inl before)
    · exact .inl (.inr (.inl rfl))
    · exact .inr new
    · exact .inl (.inr (.inr behind))
  · rintro ((before | rfl | behind) | new)
    · exact .inl before
    · exact .inr (.inl rfl)
    · exact .inr (.inr (.inr behind))
    · exact .inr (.inr (.inl new))

end ClassTrim.Body
