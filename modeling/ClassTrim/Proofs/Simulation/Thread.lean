import ClassTrim.Fault

/-!
# Threading a stack through a body

`Threads` says that a body can be walked with given pops and pushes: every instruction
finds what it pops on top of the stack, and leaves what it pushes there. The pops and
pushes are given from outside, by identity, so the same walk can be looked at while a
body and its graph are being edited. What lies on the stack is left open: the values of a
graph, how wide they are, or what they stand for.

Three changes keep a walk intact: leaving out values that nobody pops, renaming values,
and changing what the walk never asks for. Two walks through one body that push alike are
the same.
-/

namespace ClassTrim

/-- The body leads from one stack to another, each instruction popping and pushing what
it is said to. The top of a stack stands first. -/
def Threads {α : Type} (pops pushes : InstructionId → List α) :
    List α → List Instruction → List α → Prop
  | stack, [], last => stack = last
  | stack, instruction :: rest, last =>
    ∃ below, stack = pops instruction.id ++ below ∧
      Threads pops pushes ((pushes instruction.id).reverse ++ below) rest last

namespace Threads

variable {α β : Type} {pops pushes : InstructionId → List α} {stack last : List α}
  {body front rear : List Instruction}

/-- A walk through two pieces passes through a stack between them. -/
theorem append_iff : Threads pops pushes stack (front ++ rear) last ↔
    ∃ middle, Threads pops pushes stack front middle ∧ Threads pops pushes middle rear last := by
  induction front generalizing stack with
  | nil => simp [Threads]
  | cons instruction rest ih =>
    simp only [List.cons_append, Threads, ih]
    constructor
    · rintro ⟨below, split, middle, first, second⟩
      exact ⟨middle, ⟨below, split, first⟩, second⟩
    · rintro ⟨middle, ⟨below, split, first⟩, second⟩
      exact ⟨below, split, middle, first, second⟩

/-- Only what the instructions of the body pop and push matters. -/
theorem congr {otherPops otherPushes : InstructionId → List α}
    (samePops : ∀ instruction ∈ body, otherPops instruction.id = pops instruction.id)
    (samePushes : ∀ instruction ∈ body, otherPushes instruction.id = pushes instruction.id)
    (threads : Threads pops pushes stack body last) :
    Threads otherPops otherPushes stack body last := by
  induction body generalizing stack with
  | nil => exact threads
  | cons instruction rest ih =>
    obtain ⟨below, split, later⟩ := threads
    refine ⟨below, ?_, ?_⟩
    · rw [samePops instruction List.mem_cons_self, split]
    · rw [samePushes instruction List.mem_cons_self]
      exact ih (fun other member => samePops other (List.mem_cons_of_mem _ member))
        (fun other member => samePushes other (List.mem_cons_of_mem _ member)) later

/-- Values may be renamed all over a walk. -/
theorem map (rename : α → β) (threads : Threads pops pushes stack body last) :
    Threads (fun id => (pops id).map rename) (fun id => (pushes id).map rename)
      (stack.map rename) body (last.map rename) := by
  induction body generalizing stack with
  | nil => exact congrArg (List.map rename) threads
  | cons instruction rest ih =>
    obtain ⟨below, split, later⟩ := threads
    refine ⟨below.map rename, ?_, ?_⟩
    · rw [split, List.map_append]
    · have mapped := ih later
      rwa [List.map_append, List.map_reverse] at mapped

/-- Values that nobody pops may be left out all over a walk. -/
theorem filter (shown : α → Bool)
    (unpopped : ∀ instruction ∈ body, ∀ value ∈ pops instruction.id, shown value = true)
    (threads : Threads pops pushes stack body last) :
    Threads pops (fun id => (pushes id).filter shown) (stack.filter shown) body
      (last.filter shown) := by
  induction body generalizing stack with
  | nil => exact congrArg (List.filter shown) threads
  | cons instruction rest ih =>
    obtain ⟨below, split, later⟩ := threads
    have kept : (pops instruction.id).filter shown = pops instruction.id :=
      List.filter_eq_self.mpr (unpopped instruction List.mem_cons_self)
    refine ⟨below.filter shown, ?_, ?_⟩
    · rw [split, List.filter_append, kept]
    · have filtered := ih (fun other member => unpopped other (List.mem_cons_of_mem _ member)) later
      rwa [List.filter_append, List.filter_reverse] at filtered

/-- An instruction may be left out together with all that it pops and pushes. -/
theorem erase (shown : α → Bool) {instruction : Instruction}
    (hiddenPops : ∀ value ∈ pops instruction.id, shown value = false)
    (hiddenPushes : ∀ value ∈ pushes instruction.id, shown value = false)
    (unpopped : ∀ other ∈ front ++ rear, ∀ value ∈ pops other.id, shown value = true)
    (threads : Threads pops pushes stack (front ++ instruction :: rear) last) :
    Threads pops (fun id => (pushes id).filter shown) (stack.filter shown) (front ++ rear)
      (last.filter shown) := by
  obtain ⟨middle, before, below, split, behind⟩ := append_iff.mp threads
  have first := before.filter shown
    fun other member => unpopped other (List.mem_append_left _ member)
  have second := behind.filter shown
    fun other member => unpopped other (List.mem_append_right _ member)
  have noPops : (pops instruction.id).filter shown = [] :=
    List.filter_eq_nil_iff.mpr fun value member => by simp [hiddenPops value member]
  have noPushes : ((pushes instruction.id).reverse).filter shown = [] :=
    List.filter_eq_nil_iff.mpr fun value member => by
      simp [hiddenPushes value (List.mem_reverse.mp member)]
  rw [split, List.filter_append, noPops, List.nil_append] at first
  rw [List.filter_append, noPushes, List.nil_append] at second
  exact append_iff.mpr ⟨_, first, second⟩

/-- What a walk pops, and what it leaves behind, was there at the beginning or was
pushed on the way. -/
theorem forall_of_pushes {test : α → Prop}
    (threads : Threads pops pushes stack body last) (initially : ∀ value ∈ stack, test value)
    (pushed : ∀ instruction ∈ body, ∀ value ∈ pushes instruction.id, test value) :
    (∀ instruction ∈ body, ∀ value ∈ pops instruction.id, test value) ∧
      ∀ value ∈ last, test value := by
  induction body generalizing stack with
  | nil => exact ⟨by simp, (threads : stack = last) ▸ initially⟩
  | cons instruction rest ih =>
    obtain ⟨below, split, later⟩ := threads
    have here : ∀ value ∈ pops instruction.id, test value := by
      intro value member
      exact initially value (split ▸ List.mem_append_left _ member)
    have next : ∀ value ∈ (pushes instruction.id).reverse ++ below, test value := by
      intro value member
      rcases List.mem_append.mp member with new | old
      · exact pushed instruction List.mem_cons_self value (List.mem_reverse.mp new)
      · exact initially value (split ▸ List.mem_append_right _ old)
    obtain ⟨popped, left⟩ := ih later next
      (fun other member => pushed other (List.mem_cons_of_mem _ member))
    refine ⟨?_, left⟩
    intro other member
    rcases List.mem_cons.mp member with rfl | member
    · exact here
    · exact popped other member

/-- Two walks through one body that pop as many values each time, and push alike whenever
they pop alike, are the same walk. -/
theorem unique {otherPops otherPushes : InstructionId → List α} {otherLast : List α}
    (threads : Threads pops pushes stack body last)
    (others : Threads otherPops otherPushes stack body otherLast)
    (lengths : ∀ instruction ∈ body,
      (pops instruction.id).length = (otherPops instruction.id).length)
    (alike : ∀ instruction ∈ body, pops instruction.id = otherPops instruction.id →
      pushes instruction.id = otherPushes instruction.id) :
    (∀ instruction ∈ body, pops instruction.id = otherPops instruction.id) ∧ last = otherLast := by
  induction body generalizing stack with
  | nil => exact ⟨by simp, (threads : stack = last) ▸ (others : stack = otherLast)⟩
  | cons instruction rest ih =>
    obtain ⟨below, split, later⟩ := threads
    obtain ⟨otherBelow, otherSplit, otherLater⟩ := others
    obtain ⟨samePops, sameBelow⟩ := List.append_inj (split.symm.trans otherSplit)
      (lengths instruction List.mem_cons_self)
    rw [← sameBelow, ← alike instruction List.mem_cons_self samePops] at otherLater
    obtain ⟨popsAlike, sameLast⟩ := ih later otherLater
      (fun other member => lengths other (List.mem_cons_of_mem _ member))
      (fun other member => alike other (List.mem_cons_of_mem _ member))
    refine ⟨?_, sameLast⟩
    intro other member
    rcases List.mem_cons.mp member with rfl | member
    · exact samePops
    · exact popsAlike other member

end Threads

end ClassTrim
