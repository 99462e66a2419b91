import ClassTrim.Proofs.Simulation.Record

/-!
# Running along a walk

A walk through a body with given pops and pushes tells how a run of the body goes. If the
walk respects what operations ask of widths, the run succeeds, whatever the slots of the
frame hold. The values of the run stand for the values of the walk, in the order in which
the walk pushes them.
-/

namespace ClassTrim.Simulation

variable {pops pushes : InstructionId → List ValueId} {code done rest : List Instruction}
  {last : List ValueId} {simulation again : Simulation} {width : ValueId → Bool}

/-- An instruction of a recorded run popped as many values as its effect states. -/
theorem Recorded.length_popsOf (recorded : Recorded done simulation) {instruction : Instruction}
    (member : instruction ∈ done) :
    (simulation.graph.popsOf instruction.id).length = instruction.op.effect.pops := by
  obtain ⟨id, context, found, records⟩ := recorded.lists.exists_context member
  rw [← records.length_pops, ← records.same, Graph.popsOf_eq recorded.lists.single found]

/-- Every instruction of a run pushed as many values as its effect states. -/
theorem Recorded.length_pushesOf (recorded : Recorded done simulation) {instruction : Instruction}
    (member : instruction ∈ done) :
    (simulation.graph.pushesOf instruction.id).length = instruction.op.effect.pushes := by
  obtain ⟨id, context, found, records⟩ := recorded.lists.exists_context member
  rw [← records.length_pushes, ← records.same, Graph.pushesOf_eq recorded.lists.single found]

/-- A run and a walk through the same instructions reach stacks that are alike in depth
and widths. -/
theorem Recorded.map_isWideValue_stack (recorded : Recorded done simulation)
    (threads : Threads pops pushes [] done last)
    (lengths : ∀ instruction ∈ done, (pops instruction.id).length = instruction.op.effect.pops)
    (widths : ∀ instruction ∈ done,
      WidthLaw instruction ((pops instruction.id).map width) ((pushes instruction.id).map width)) :
    simulation.frame.stack.map simulation.isWideValue = last.map width := by
  have actual := recorded.threads.map simulation.isWideValue
  have wanted := threads.map width
  refine (actual.unique wanted ?_ ?_).2
  · intro instruction member
    rw [List.length_map, List.length_map, recorded.length_popsOf member,
      lengths instruction member]
  · intro instruction member same
    rw [(recorded.widths instruction member).2.2, (widths instruction member).2.2, same]

/-- A run goes on wherever a walk does. -/
theorem Recorded.exists_runInstructions (recorded : Recorded done simulation)
    (distinct : ((done ++ rest).map Instruction.id).Nodup)
    (threads : Threads pops pushes [] (done ++ rest) last)
    (lengths : ∀ instruction ∈ done ++ rest,
      (pops instruction.id).length = instruction.op.effect.pops)
    (widths : ∀ instruction ∈ done ++ rest,
      WidthLaw instruction ((pops instruction.id).map width) ((pushes instruction.id).map width)) :
    ∃ again, simulation.runInstructions rest = .ok again := by
  induction rest generalizing done simulation with
  | nil => exact ⟨simulation, rfl⟩
  | cons instruction rest ih =>
    obtain ⟨middle, before, below, split, _⟩ := Threads.append_iff.mp threads
    have here : instruction ∈ done ++ instruction :: rest :=
      List.mem_append_right _ List.mem_cons_self
    have alike := recorded.map_isWideValue_stack before
      (fun other member => lengths other (List.mem_append_left _ member))
      (fun other member => widths other (List.mem_append_left _ member))
    obtain ⟨form, wide, _⟩ := widths instruction here
    have enough : instruction.op.effect.pops ≤ simulation.frame.stack.length := by
      have depth := congrArg List.length alike
      rw [List.length_map, List.length_map, split, List.length_append,
        lengths instruction here] at depth
      rw [depth]
      exact Nat.le_add_right _ _
    have top : instruction.op.needsWideTop = true → simulation.hasNarrowTop = false := by
      intro needed
      have one : (pops instruction.id).length = 1 := by
        rw [lengths instruction here, pops_of_needsWideTop needed]
      obtain ⟨value, single⟩ := List.length_eq_one_iff.mp one
      have isWide : width value = true := wide needed (width value) (by simp [single])
      rw [split, single] at alike
      cases stack : simulation.frame.stack with
      | nil => simp [stack] at alike
      | cons head tail =>
        rw [stack] at alike
        have sameWidth : simulation.isWideValue head = width value := (List.cons.inj alike).1
        have headWide := sameWidth.trans isWide
        simpa [hasNarrowTop, stack, isWideValue] using headWide
    have executed := execute_eq_completed simulation instruction form top enough
    have regroup : done ++ instruction :: rest = (done ++ [instruction]) ++ rest := by simp
    have new := id_not_mem distinct
    rw [regroup] at distinct threads lengths widths
    obtain ⟨again, ran⟩ := ih (recorded.execute new executed) distinct threads lengths widths
    refine ⟨again, ?_⟩
    rw [Simulation.runInstructions, executed]
    exact ran

/-- Two ways to cut one list into pieces of equal lengths are the same. -/
theorem eq_of_flatMap_eq {α β : Type} {items : List α} {cut other : α → List β}
    (lengths : ∀ item ∈ items, (cut item).length = (other item).length)
    (same : items.flatMap cut = items.flatMap other) : ∀ item ∈ items, cut item = other item := by
  induction items with
  | nil => simp
  | cons head tail ih =>
    rw [List.flatMap_cons, List.flatMap_cons] at same
    obtain ⟨first, later⟩ := List.append_inj same (lengths head List.mem_cons_self)
    intro item member
    rcases List.mem_cons.mp member with rfl | member
    · exact first
    · exact ih (fun item inside => lengths item (List.mem_cons_of_mem _ inside)) later item member

/-- The values of a walk in the order in which it pushes them; the run numbers them from
zero. -/
def image (pushes : InstructionId → List ValueId) (code : List Instruction)
    (value : ValueId) : ValueId :=
  (code.flatMap fun instruction => pushes instruction.id).getD value 0

/-- A run makes as many values as the walk pushes. -/
theorem Recorded.nextValue_eq (recorded : Recorded code again)
    (lengths : ∀ instruction ∈ code,
      (pushes instruction.id).length = instruction.op.effect.pushes) :
    again.nextValue = (code.flatMap fun instruction => pushes instruction.id).length := by
  have numbered := congrArg List.length recorded.ordered
  rw [List.length_range, List.length_flatMap] at numbered
  rw [← numbered, List.length_flatMap]
  congr 1
  apply List.map_congr_left
  intro instruction member
  rw [recorded.length_pushesOf member, lengths instruction member]

/-- What a run pushes stands for what the walk pushes. -/
theorem Recorded.map_image_pushesOf (recorded : Recorded code again)
    (lengths : ∀ instruction ∈ code,
      (pushes instruction.id).length = instruction.op.effect.pushes) :
    ∀ instruction ∈ code, (again.graph.pushesOf instruction.id).map (image pushes code) =
      pushes instruction.id := by
  have whole : (List.range again.nextValue).map (image pushes code) =
      code.flatMap fun instruction => pushes instruction.id := by
    rw [recorded.nextValue_eq lengths]
    apply List.ext_getElem
    · simp
    · intro index bound inside
      simp [image, List.getD_eq_getElem?_getD, List.getElem?_eq_getElem inside]
  rw [← recorded.ordered, List.map_flatMap] at whole
  refine eq_of_flatMap_eq ?_ whole
  intro instruction member
  rw [List.length_map, recorded.length_pushesOf member, lengths instruction member]

/-- What a run pops, and what it leaves on the stack, stands for what the walk pops and
leaves. -/
theorem Recorded.map_image_popsOf (recorded : Recorded code again)
    (threads : Threads pops pushes [] code last)
    (popLengths : ∀ instruction ∈ code, (pops instruction.id).length = instruction.op.effect.pops)
    (pushLengths : ∀ instruction ∈ code,
      (pushes instruction.id).length = instruction.op.effect.pushes) :
    (∀ instruction ∈ code, (again.graph.popsOf instruction.id).map (image pushes code) =
      pops instruction.id) ∧ again.frame.stack.map (image pushes code) = last := by
  have pushesAlike := recorded.map_image_pushesOf pushLengths
  refine (recorded.threads.map (image pushes code)).unique threads ?_ ?_
  · intro instruction member
    rw [List.length_map, recorded.length_popsOf member, popLengths instruction member]
  · intro instruction member _
    exact pushesAlike instruction member

/-- A run makes values as wide as any walk that obeys the laws of widths. -/
theorem Recorded.map_isWideValue_pushesOf (recorded : Recorded code again)
    {popWidths pushWidths : InstructionId → List Bool} {lastWidths : List Bool}
    (threads : Threads popWidths pushWidths [] code lastWidths)
    (lengths : ∀ instruction ∈ code,
      (popWidths instruction.id).length = instruction.op.effect.pops)
    (law : ∀ instruction ∈ code,
      WidthLaw instruction (popWidths instruction.id) (pushWidths instruction.id)) :
    ∀ instruction ∈ code,
      (again.graph.pushesOf instruction.id).map again.isWideValue = pushWidths instruction.id := by
  have alike : ∀ instruction ∈ code,
      (again.graph.popsOf instruction.id).map again.isWideValue = popWidths instruction.id →
      (again.graph.pushesOf instruction.id).map again.isWideValue = pushWidths instruction.id := by
    intro instruction member same
    rw [(recorded.widths instruction member).2.2, (law instruction member).2.2, same]
  have pops := ((recorded.threads.map again.isWideValue).unique threads ?_ alike).1
  · intro instruction member
    exact alike instruction member (pops instruction member)
  · intro instruction member
    rw [List.length_map, recorded.length_popsOf member, lengths instruction member]

end ClassTrim.Simulation
