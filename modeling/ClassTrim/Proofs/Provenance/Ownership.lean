import ClassTrim.Proofs.Provenance.Linked

/-!
# The contexts of an instruction

A straight walk executes every instruction once, and an instruction that is inserted
later gets one context too. In such a graph the questions about an instruction have
one-element answers: its contexts, its live contexts, what it popped and pushed, and
how many of its values are still taken.
-/

namespace ClassTrim.Graph

/-- No instruction has two contexts. -/
def Single (graph : Graph) : Prop :=
  ∀ {first second : ContextId} {context other : Context},
    graph.context? first = some context → graph.context? second = some other →
      context.instruction = other.instruction → first = second

/-- A list without repetition that has one member is that member alone. -/
theorem eq_singleton_of_mem_iff {α : Type} {items : List α} {item : α} (distinct : items.Nodup)
    (only : ∀ other, other ∈ items ↔ other = item) : items = [item] := by
  cases items with
  | nil => simpa using only item
  | cons head rest =>
    obtain ⟨fresh, _⟩ := List.nodup_cons.mp distinct
    have isHead : head = item := (only head).mp List.mem_cons_self
    have noRest : rest = [] := by
      apply List.eq_nil_iff_forall_not_mem.mpr
      intro other member
      have same : other = item := (only other).mp (List.mem_cons_of_mem _ member)
      exact fresh (isHead ▸ same ▸ member)
    rw [isHead, noRest]

/-- The contexts listed for an instruction are those that name it. -/
theorem mem_contextsOf {graph : Graph} {instruction : InstructionId} {id : ContextId} :
    id ∈ graph.contextsOf instruction ↔
      ∃ context, graph.context? id = some context ∧ context.instruction = instruction := by
  simp only [contextsOf, List.mem_filter, List.mem_range, Option.any_eq_true, decide_eq_true_eq]
  constructor
  · rintro ⟨_, context, found, same⟩
    exact ⟨context, found, same⟩
  · rintro ⟨context, found, same⟩
    exact ⟨lt_of_context? found, context, found, same⟩

section

variable {graph : Graph} {id : ContextId} {context : Context}

/-- The only context of an instruction is all that a search for its contexts finds. -/
theorem contextsOf_eq (single : graph.Single) (found : graph.context? id = some context) :
    graph.contextsOf context.instruction = [id] := by
  have distinct : (graph.contextsOf context.instruction).Nodup := List.nodup_range.filter _
  apply eq_singleton_of_mem_iff distinct
  intro other
  rw [mem_contextsOf]
  constructor
  · rintro ⟨entry, entered, same⟩
    exact single entered found same
  · rintro rfl
    exact ⟨context, found, rfl⟩

/-- The one context of an instruction is found by the instruction. -/
theorem contextOf?_eq (single : graph.Single) (found : graph.context? id = some context) :
    graph.contextOf? context.instruction = some context := by
  rw [contextOf?, contextsOf_eq single found]
  exact found

/-- What an instruction pops stands in its one context. -/
theorem popsOf_eq (single : graph.Single) (found : graph.context? id = some context) :
    graph.popsOf context.instruction = context.pops := by
  rw [popsOf, contextOf?_eq single found]
  rfl

/-- What an instruction pushes stands in its one context. -/
theorem pushesOf_eq (single : graph.Single) (found : graph.context? id = some context) :
    graph.pushesOf context.instruction = context.pushes := by
  rw [pushesOf, contextOf?_eq single found]
  rfl

/-- The pops of a context are read off its entry. -/
theorem popsIn_eq (found : graph.context? id = some context) :
    graph.popsIn id = context.pops := by
  rw [popsIn, found]
  rfl

/-- The pushes of a context are read off its entry. -/
theorem pushesIn_eq (found : graph.context? id = some context) :
    graph.pushesIn id = context.pushes := by
  rw [pushesIn, found]
  rfl

/-- The one context of an instruction, if live, is its only live one. -/
theorem liveContextsOf_eq (single : graph.Single) (found : graph.context? id = some context)
    (live : context.live = true) : graph.liveContextsOf context.instruction = [id] := by
  rw [liveContextsOf, contextsOf_eq single found]
  simp [isLive_of_context? found, live]

/-- An instruction has takers exactly when some value of its live context has one. -/
theorem takerCount_eq_zero_iff (single : graph.Single) (found : graph.context? id = some context)
    (live : context.live = true) :
    graph.takerCount context.instruction = 0 ↔
      ∀ value ∈ context.pushes, graph.liveConsumers value = [] := by
  rw [takerCount, liveContextsOf_eq single found live, List.length_eq_zero_iff]
  simp [pushesIn_eq found]

end

end ClassTrim.Graph
