import ClassTrim.Proofs.Provenance.Edit
import ClassTrim.Proofs.Simulation.Thread

/-!
# Walking a body in the middle of a removal

Between the first deletion of a removal and its end the body cannot be executed: it pushes
values whose takers are gone. `Walk` is what remains true. Once the values that wait to be
settled are left out, wherever they are pushed, the rest still threads the stack through
the body. When nothing waits any more this is an ordinary walk again.

Each lemma of this module is about one edit, seen from the walk: what is popped and pushed
is given by identity, and the graph does not occur.
-/

namespace ClassTrim

/-- The values that a walk sees: those that are live and do not wait. -/
def shown (live : ValueId → Bool) (waiting : List ValueId) (value : ValueId) : Bool :=
  live value && decide (value ∉ waiting)

/-- The body can be walked from the empty stack to what is left of a stack, except that
waiting values are pushed and not taken. -/
structure Walk (pops pushes : InstructionId → List ValueId) (live : ValueId → Bool)
    (waiting stack : List ValueId) (body : List Instruction) : Prop where
  distinct : waiting.Nodup
  /-- Nobody takes a waiting value. -/
  idle : ∀ value ∈ waiting, ∀ instruction ∈ body, value ∉ pops instruction.id
  /-- What lies on the stack at the end does not wait and is not taken. -/
  apart : ∀ value ∈ stack, value ∉ waiting ∧ ∀ instruction ∈ body, value ∉ pops instruction.id
  threads : Threads pops (fun id => (pushes id).filter (shown live waiting)) [] body
    (stack.filter (shown live waiting))

/-- An instruction that leaves another value in the place of the one that it pops may be
left out, if who popped the other value pops the first one instead. -/
theorem Threads.bypass {pops pushes : InstructionId → List ValueId} {stack last : List ValueId}
    {front rear : List Instruction} {instruction : Instruction} {source survivor : ValueId}
    (copied : pops instruction.id = [source]) (left : pushes instruction.id = [survivor])
    (initially : survivor ∉ stack) (fresh : ∀ other ∈ front, survivor ∉ pushes other.id)
    (threads : Threads pops pushes stack (front ++ instruction :: rear) last) :
    Threads (fun id => (pops id).map (Graph.rename survivor source))
      (fun id => (pushes id).map (Graph.rename survivor source)) stack (front ++ rear)
      (last.map (Graph.rename survivor source)) := by
  obtain ⟨middle, before, below, split, behind⟩ := append_iff.mp threads
  -- In front of the instruction the other value does not occur.
  have absent : (∀ other ∈ front, ∀ value ∈ pops other.id, value ≠ survivor) ∧
      ∀ value ∈ middle, value ≠ survivor := by
    refine before.forall_of_pushes ?_ ?_
    · exact fun value member same => initially (same ▸ member)
    · exact fun other member value pushed same => fresh other member (same ▸ pushed)
  have belowFree : survivor ∉ below := fun member =>
    absent.2 survivor (split ▸ List.mem_append_right _ member) rfl
  have start : ((pushes instruction.id).reverse ++ below).map (Graph.rename survivor source) =
      middle := by
    rw [split, copied, left, List.map_append, Graph.map_rename_of_not_mem belowFree]
    simp [Graph.rename]
  have renamed := behind.map (Graph.rename survivor source)
  rw [start] at renamed
  refine append_iff.mpr ⟨middle, before.congr ?_ ?_, renamed⟩
  · intro other member
    exact Graph.map_rename_of_not_mem fun popped => absent.1 other member survivor popped rfl
  · intro other member
    exact Graph.map_rename_of_not_mem (fresh other member)

namespace Walk

variable {pops pushes : InstructionId → List ValueId} {live : ValueId → Bool}
  {waiting rest stack : List ValueId} {body front rear : List Instruction}
  {instruction : Instruction}

/-- Only what the instructions of the body pop and push matters. -/
theorem congr {otherPops otherPushes : InstructionId → List ValueId}
    (walk : Walk pops pushes live waiting stack body)
    (samePops : ∀ instruction ∈ body, otherPops instruction.id = pops instruction.id)
    (samePushes : ∀ instruction ∈ body, otherPushes instruction.id = pushes instruction.id) :
    Walk otherPops otherPushes live waiting stack body where
  distinct := walk.distinct
  idle := by
    intro value member instruction inside
    rw [samePops instruction inside]
    exact walk.idle value member instruction inside
  apart := by
    intro value member
    refine ⟨(walk.apart value member).1, ?_⟩
    intro instruction inside
    rw [samePops instruction inside]
    exact (walk.apart value member).2 instruction inside
  threads := by
    apply walk.threads.congr samePops
    intro instruction inside
    rw [samePushes instruction inside]

/-- A dead value need not wait. -/
theorem pass {value : ValueId} (walk : Walk pops pushes live (value :: rest) stack body)
    (dead : live value = false) : Walk pops pushes live rest stack body where
  distinct := (List.nodup_cons.mp walk.distinct).2
  idle := fun other member => walk.idle other (List.mem_cons_of_mem _ member)
  apart := fun other member =>
    ⟨fun inside => (walk.apart other member).1 (List.mem_cons_of_mem _ inside),
      (walk.apart other member).2⟩
  threads := by
    have same : shown live rest = shown live (value :: rest) := by
      funext other
      by_cases isValue : other = value
      · simp [shown, isValue, dead]
      · simp [shown, isValue]
    rw [same]
    exact walk.threads

/-- What stands on either side of an instruction stands in the whole. -/
theorem mem_of_mem_sides {other : Instruction} (member : other ∈ front ++ rear) :
    other ∈ front ++ instruction :: rear := by
  rcases List.mem_append.mp member with before | behind
  · exact List.mem_append_left _ before
  · exact List.mem_append_right _ (List.mem_cons_of_mem _ behind)

/-- An instruction is deleted: what it pushed is gone, and what it popped waits. -/
theorem delete {dropped : List ValueId}
    (walk : Walk pops pushes live (dropped ++ rest) stack (front ++ instruction :: rear))
    (own : ∀ value ∈ dropped, value ∈ pushes instruction.id)
    (untaken : ∀ value ∈ pushes instruction.id, ∀ other ∈ front ++ rear, value ∉ pops other.id)
    (sole : ∀ value ∈ pops instruction.id, ∀ other ∈ front ++ rear, value ∉ pops other.id)
    (once : (pops instruction.id).Nodup) :
    Walk pops pushes (fun value => live value && decide (value ∉ pushes instruction.id))
      (pops instruction.id ++ rest) stack (front ++ rear) := by
  have here : instruction ∈ front ++ instruction :: rear :=
    List.mem_append_right _ List.mem_cons_self
  -- What the deletion hides in addition to what was hidden before.
  let kept : ValueId → Bool := fun value =>
    decide (value ∉ pushes instruction.id) && decide (value ∉ pops instruction.id)
  have hides : ∀ values : List ValueId,
      values.filter (shown (fun value => live value && decide (value ∉ pushes instruction.id))
        (pops instruction.id ++ rest)) =
      (values.filter (shown live (dropped ++ rest))).filter kept := by
    intro values
    rw [List.filter_filter]
    apply List.filter_congr
    intro value _
    by_cases pushed : value ∈ pushes instruction.id
    · simp [shown, kept, pushed]
    · have undropped : value ∉ dropped := fun member => pushed (own value member)
      by_cases popped : value ∈ pops instruction.id
      · simp [shown, kept, popped]
      · simp [shown, kept, pushed, undropped, popped]
  have unhidden : ∀ other ∈ front ++ rear, ∀ value ∈ pops other.id, kept value = true := by
    intro other member value popped
    have notPushed : value ∉ pushes instruction.id :=
      fun pushed => untaken value pushed other member popped
    have notPopped : value ∉ pops instruction.id :=
      fun shared => sole value shared other member popped
    simp [kept, notPushed, notPopped]
  refine ⟨?_, ?_, ?_, ?_⟩
  · refine List.nodup_append.mpr ⟨once, (List.nodup_append.mp walk.distinct).2.1, ?_⟩
    rintro value popped other waits rfl
    exact walk.idle value (List.mem_append_right _ waits) instruction here popped
  · intro value waits other member
    rcases List.mem_append.mp waits with popped | old
    · exact sole value popped other member
    · exact walk.idle value (List.mem_append_right _ old) other (mem_of_mem_sides member)
  · intro value member
    obtain ⟨unwaiting, free⟩ := walk.apart value member
    refine ⟨?_, fun other inside => free other (mem_of_mem_sides inside)⟩
    intro waits
    rcases List.mem_append.mp waits with popped | old
    · exact free instruction here popped
    · exact unwaiting (List.mem_append_right _ old)
  · have fewer := walk.threads.erase kept (fun value popped => by simp [kept, popped])
      (fun value pushed => by simp [kept, (List.mem_filter.mp pushed).1]) unhidden
    simp only [← hides, List.filter_nil] at fewer
    exact fewer

/-- A duplication is taken out: one copy waited, and the duplicated value takes the place
of the other. -/
theorem bypass {source released survivor : ValueId}
    (walk : Walk pops pushes live (released :: rest) stack (front ++ instruction :: rear))
    (copied : pops instruction.id = [source])
    (copies : pushes instruction.id = [released, survivor] ∨
      pushes instruction.id = [survivor, released])
    (alive : live survivor = true)
    (taken : ∃ taker ∈ front ++ instruction :: rear, survivor ∈ pops taker.id)
    (fresh : ∀ other ∈ front ++ rear, survivor ∉ pushes other.id) :
    Walk (fun id => (pops id).map (Graph.rename survivor source)) pushes
      (fun value => live value && decide (value ∉ pushes instruction.id)) rest stack
      (front ++ rear) := by
  obtain ⟨taker, takerMember, taken⟩ := taken
  have here : instruction ∈ front ++ instruction :: rear :=
    List.mem_append_right _ List.mem_cons_self
  have unwaiting : survivor ∉ released :: rest :=
    fun waits => walk.idle survivor waits taker takerMember taken
  have offStack : survivor ∉ stack :=
    fun member => (walk.apart survivor member).2 taker takerMember taken
  have sourceTaken : source ∈ pops instruction.id := by simp [copied]
  -- Apart from the surviving copy the walk sees what it saw.
  have same : ∀ values : List ValueId, survivor ∉ values →
      values.filter (shown (fun value => live value && decide (value ∉ pushes instruction.id))
        rest) = values.filter (shown live (released :: rest)) := by
    intro values absent
    apply List.filter_congr
    intro value member
    have notSurvivor : value ≠ survivor := fun isSurvivor => absent (isSurvivor ▸ member)
    have pushed : value ∈ pushes instruction.id ↔ value = released := by
      rcases copies with first | second
      · simp [first, notSurvivor]
      · simp [second, notSurvivor]
    by_cases isReleased : value = released
    · subst isReleased
      simp [shown, pushed.mpr rfl]
    · simp [shown, pushed, isReleased]
  refine ⟨(List.nodup_cons.mp walk.distinct).2, ?_, ?_, ?_⟩
  · intro value waits other member renamed
    rcases Graph.eq_or_mem_of_mem_map_rename renamed with isSource | popped
    · exact walk.idle value (List.mem_cons_of_mem _ waits) instruction here
        (isSource ▸ sourceTaken)
    · exact walk.idle value (List.mem_cons_of_mem _ waits) other (mem_of_mem_sides member) popped
  · intro value member
    obtain ⟨calm, free⟩ := walk.apart value member
    refine ⟨fun waits => calm (List.mem_cons_of_mem _ waits), ?_⟩
    intro other inside renamed
    rcases Graph.eq_or_mem_of_mem_map_rename renamed with isSource | popped
    · exact free instruction here (isSource ▸ sourceTaken)
    · exact free other (mem_of_mem_sides inside) popped
  · have left : (pushes instruction.id).filter (shown live (released :: rest)) = [survivor] := by
      have hidden : shown live (released :: rest) released = false := by simp [shown]
      have visible : shown live (released :: rest) survivor = true := by
        simp only [shown, alive, unwaiting, not_false_eq_true, decide_true, Bool.and_self]
      rcases copies with first | second
      · simp [first, hidden, visible]
      · simp [second, hidden, visible]
    have unlisted : ∀ values : List ValueId, survivor ∉ values →
        (values.filter (shown live (released :: rest))).map (Graph.rename survivor source) =
          values.filter (shown live (released :: rest)) := fun values absent =>
      Graph.map_rename_of_not_mem fun inside => absent (List.mem_filter.mp inside).1
    have renamed := walk.threads.bypass copied left (by simp) fun other member pushed =>
      fresh other (List.mem_append_left _ member) (List.mem_filter.mp pushed).1
    rw [unlisted stack offStack, ← same stack offStack] at renamed
    refine renamed.congr (fun _ _ => rfl) ?_
    intro other member
    rw [same _ (fresh other member), unlisted _ (fresh other member)]

/-- A waiting value gets a taker right behind the instruction that pushed it. -/
theorem take {released : ValueId} {taker : Instruction}
    (walk : Walk pops pushes live (released :: rest) stack (front ++ instruction :: rear))
    (pushed : pushes instruction.id = [released]) (alive : live released = true)
    (fresh : ∀ other ∈ front ++ rear, released ∉ pushes other.id)
    (takes : pops taker.id = [released]) (leaves : pushes taker.id = []) :
    Walk pops pushes live rest stack (front ++ instruction :: taker :: rear) := by
  obtain ⟨newcomer, distinct⟩ := List.nodup_cons.mp walk.distinct
  have offStack : released ∉ stack :=
    fun member => (walk.apart released member).1 List.mem_cons_self
  have cases : ∀ {other}, other ∈ front ++ instruction :: taker :: rear →
      other = taker ∨ other ∈ front ++ instruction :: rear := by
    intro other member
    simp only [List.mem_append, List.mem_cons] at member ⊢
    rcases member with before | isHere | isTaker | behind
    · exact .inr (.inl before)
    · exact .inr (.inr (.inl isHere))
    · exact .inl isTaker
    · exact .inr (.inr (.inr behind))
  have same : ∀ values : List ValueId, released ∉ values →
      values.filter (shown live rest) = values.filter (shown live (released :: rest)) := by
    intro values absent
    apply List.filter_congr
    intro value member
    have notReleased : value ≠ released := fun isReleased => absent (isReleased ▸ member)
    simp [shown, notReleased]
  refine ⟨distinct, ?_, ?_, ?_⟩
  · intro value waits other member popped
    rcases cases member with rfl | old
    · rw [takes, List.mem_singleton] at popped
      exact newcomer (popped ▸ waits)
    · exact walk.idle value (List.mem_cons_of_mem _ waits) other old popped
  · intro value member
    obtain ⟨calm, free⟩ := walk.apart value member
    refine ⟨fun waits => calm (List.mem_cons_of_mem _ waits), ?_⟩
    intro other inside popped
    rcases cases inside with rfl | old
    · rw [takes, List.mem_singleton] at popped
      exact offStack (popped ▸ member)
    · exact free other old popped
  · obtain ⟨middle, before, below, split, behind⟩ := Threads.append_iff.mp walk.threads
    have hidden : ((pushes instruction.id).filter (shown live (released :: rest))) = [] := by
      simp [pushed, shown]
    have visible : ((pushes instruction.id).filter (shown live rest)) = [released] := by
      simp [pushed, shown, alive, newcomer]
    simp only [hidden, List.reverse_nil, List.nil_append] at behind
    refine Threads.append_iff.mpr ⟨middle, ?_, below, split, below, ?_, ?_⟩
    · exact before.congr (fun _ _ => rfl) fun other member =>
        same _ (fresh other (List.mem_append_left _ member))
    · simp only [visible, takes, List.reverse_singleton]
    · simp only [leaves, same stack offStack, List.filter_nil, List.reverse_nil, List.nil_append]
      exact behind.congr (fun _ _ => rfl) fun other member =>
        same _ (fresh other (List.mem_append_right _ member))

end Walk

end ClassTrim
