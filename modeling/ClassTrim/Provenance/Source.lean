import ClassTrim.Provenance.Graph

/-!
# Counting sources

A source is a live context that has pushed something. Editing a graph after the
execution never makes a new source, and detaching one lowers their number. This
is why the retirement of producers ends.
-/

namespace ClassTrim

/-- Changing one item raises no count, if the change makes no item pass that did not pass before. -/
theorem countP_modify_le {α : Type} (test : α → Bool) (change : α → α)
    (kept : ∀ item, test (change item) = true → test item = true) (items : List α) (index : Nat) :
    (items.modify index change).countP test ≤ items.countP test := by
  induction items generalizing index with
  | nil => simp
  | cons head rest ih =>
    cases index with
    | zero =>
      have step := kept head
      simp only [List.modify_zero_cons, List.countP_cons]
      by_cases after : test (change head) = true <;> by_cases before : test head = true <;>
        simp_all
    | succ index =>
      simp only [List.modify_succ_cons, List.countP_cons]
      have := ih index
      omega

/-- Changing one item lowers a count, if the item passes before and fails after. -/
theorem countP_modify_lt {α : Type} (test : α → Bool) (change : α → α) (items : List α)
    (index : Nat) (item : α) (found : items[index]? = some item) (before : test item = true)
    (after : test (change item) = false) :
    (items.modify index change).countP test < items.countP test := by
  induction items generalizing index with
  | nil => simp at found
  | cons head rest ih =>
    cases index with
    | zero =>
      simp only [List.getElem?_cons_zero, Option.some.injEq] at found
      subst found
      simp [before, after]
    | succ index =>
      simp only [List.getElem?_cons_succ] at found
      simp only [List.modify_succ_cons, List.countP_cons]
      have := ih index found
      omega

namespace Graph

/-- A consumer is recorded with the value, so dropping one changes no context. -/
theorem contexts_dropConsumer (graph : Graph) (context : ContextId) (value : ValueId) :
    (graph.dropConsumer context value).contexts = graph.contexts := rfl

/-- Killing values changes no context. -/
theorem contexts_killValues (values : List ValueId) (graph : Graph) :
    (values.foldl killValue graph).contexts = graph.contexts := by
  induction values generalizing graph with
  | nil => rfl
  | cons value rest ih => exact ih _

/-- Dropping a consumer of several values changes no context. -/
theorem contexts_dropConsumers (values : List ValueId) (id : ContextId) (graph : Graph) :
    (values.foldl (fun rest value => rest.dropConsumer id value) graph).contexts =
      graph.contexts := by
  induction values generalizing graph with
  | nil => rfl
  | cons value rest ih => exact ih _

/-- Detaching a context changes that context only. -/
theorem contexts_detach (graph : Graph) (id : ContextId) :
    (graph.detach id).contexts =
      graph.contexts.modify id fun entry => { entry with live := false } := by
  unfold detach
  split
  · next missing =>
    have outside : graph.contexts.size ≤ id := by
      simpa [context?] using missing
    apply Array.ext'
    rw [Array.toList_modify, List.modify_eq_self (by simpa using outside)]
  · simp only [contexts_dropConsumers, contexts_killValues]

/-- Sources counted in the array are sources counted in its list. -/
theorem sourceCount_eq (graph : Graph) :
    graph.sourceCount = graph.contexts.toList.countP Context.isSource := by
  simp [sourceCount]

/-- Detaching a context makes no new source. -/
theorem sourceCount_detach_le (graph : Graph) (id : ContextId) :
    (graph.detach id).sourceCount ≤ graph.sourceCount := by
  simp only [sourceCount_eq, contexts_detach, Array.toList_modify]
  exact countP_modify_le _ _ (by simp [Context.isSource]) _ _

/-- Detaching a source leaves one source less. -/
theorem sourceCount_detach_lt (graph : Graph) (id : ContextId) (context : Context)
    (found : graph.context? id = some context) (source : context.isSource = true) :
    (graph.detach id).sourceCount < graph.sourceCount := by
  simp only [sourceCount_eq, contexts_detach, Array.toList_modify]
  refine countP_modify_lt _ _ _ _ context ?_ source (by simp [Context.isSource])
  simpa [context?] using found

/-- Detaching one context leaves every other one as it was. -/
theorem context?_detach_of_ne (graph : Graph) (other id : ContextId) (distinct : other ≠ id) :
    (graph.detach other).context? id = graph.context? id := by
  simp only [context?, contexts_detach]
  simp [Array.getElem?_modify, distinct]

/-- Detaching any number of contexts makes no new source. -/
theorem sourceCount_detachAll_le (ids : List ContextId) (graph : Graph) :
    (ids.foldl detach graph).sourceCount ≤ graph.sourceCount := by
  induction ids generalizing graph with
  | nil => exact Nat.le_refl _
  | cons id rest ih => exact Nat.le_trans (ih _) (sourceCount_detach_le graph id)

/-- Detaching contexts of which one is a source leaves fewer sources. -/
theorem sourceCount_detachAll_lt (ids : List ContextId) (graph : Graph) (id : ContextId)
    (context : Context) (member : id ∈ ids) (found : graph.context? id = some context)
    (source : context.isSource = true) :
    (ids.foldl detach graph).sourceCount < graph.sourceCount := by
  induction ids generalizing graph with
  | nil => simp at member
  | cons head rest ih =>
    by_cases same : head = id
    · subst same
      exact Nat.lt_of_le_of_lt (sourceCount_detachAll_le rest _)
        (sourceCount_detach_lt graph head context found source)
    · have later : id ∈ rest := by
        rcases List.mem_cons.mp member with equal | inside
        · exact absurd equal.symm same
        · exact inside
      have kept : (graph.detach head).context? id = some context := by
        rw [context?_detach_of_ne graph head id same, found]
      exact Nat.lt_of_lt_of_le (ih _ later kept) (sourceCount_detach_le graph head)

/-- Popping one value in the place of another makes no new source, since only pops change. -/
theorem sourceCount_substitute_le (graph changed : Graph) (id : ContextId) (old new : ValueId)
    (done : graph.substitute id old new = .ok changed) :
    changed.sourceCount ≤ graph.sourceCount := by
  simp only [substitute] at done
  split at done
  · simp only [Except.ok.injEq] at done
    subst done
    simp only [sourceCount_eq, contexts_dropConsumer, Array.toList_modify]
    exact countP_modify_le _ _ (by simp [Context.isSource]) _ _
  · simp at done

/-- Rewiring takers one by one makes no new source. -/
theorem sourceCount_rewire_le (takers : List ContextId) (graph changed : Graph)
    (old new : ValueId) (done : graph.rewire old new takers = .ok changed) :
    changed.sourceCount ≤ graph.sourceCount := by
  induction takers generalizing graph with
  | nil =>
    simp only [rewire, Except.ok.injEq] at done
    exact done ▸ Nat.le_refl _
  | cons taker rest ih =>
    simp only [rewire] at done
    split at done
    · simp at done
    · next middle substituted =>
      exact Nat.le_trans (ih middle done)
        (sourceCount_substitute_le graph middle taker old new substituted)

/-- A new context has pushed nothing, so it is no source. -/
theorem sourceCount_openContext (graph : Graph) (instruction : Instruction) (frame : Nat) :
    (graph.openContext instruction frame).sourceCount = graph.sourceCount := by
  simp [sourceCount, openContext, Context.isSource, Context.opened]

/-- Recording a pop makes no new source. -/
theorem sourceCount_recordPop_le (graph : Graph) (context : ContextId) (value : ValueId) :
    (graph.recordPop context value).sourceCount ≤ graph.sourceCount := by
  simp only [sourceCount_eq, recordPop, Array.toList_modify]
  exact countP_modify_le _ _ (by simp [Context.isSource]) _ _

/-- A stranded value has a live context of the instruction to retire as its
producer. -/
theorem exists_source_of_stranded {graph : Graph} {value : ValueId} {id : InstructionId}
    (found : graph.stranded? value = some id) :
    ∃ context entry, context ∈ graph.liveContextsOf id ∧
      graph.context? context = some entry ∧ entry.isSource = true := by
  simp only [stranded?, producer?] at found
  split at found
  · simp at found
  · split at found
    · simp at found
    · next entry produced =>
      split at found
      · next source =>
        simp only [Option.some.injEq] at found
        obtain ⟨node, _, entered⟩ := Option.bind_eq_some_iff.mp produced
        refine ⟨node.pushedBy, entry, ?_, entered, source⟩
        have bound : node.pushedBy < graph.contexts.size := by
          simp only [context?] at entered
          exact (Array.getElem?_eq_some_iff.mp entered).1
        have live : entry.live = true := by
          simp only [Context.isSource, Bool.and_eq_true] at source
          exact source.1
        simp [liveContextsOf, contextsOf, isLive, entered, bound, found, live]
      · simp at found

end Graph

end ClassTrim
