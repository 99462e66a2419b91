import ClassTrim.Provenance.Duplication

/-!
# What a duplication answers

A duplication answers for the values that it pushed itself. The answers come from the context in
which it did so; asked for anything else it objects, and the objection is a contract violation.
-/

namespace ClassTrim.Graph

variable {graph : Graph}

/-- Some context of an instruction pushed a value. -/
def Owns (graph : Graph) (instruction : InstructionId) (value : ValueId) : Prop :=
  ∃ context ∈ graph.contexts, context.instruction = instruction ∧ value ∈ context.pushes

instance (graph : Graph) (instruction : InstructionId) (value : ValueId) :
    Decidable (graph.Owns instruction value) :=
  inferInstanceAs (Decidable (∃ context ∈ graph.contexts, _))

/-- An instruction owns a value if the value is among the pushes of one of its contexts. -/
theorem owns_iff {instruction : InstructionId} {value : ValueId} :
    graph.Owns instruction value ↔ ∃ id context, graph.context? id = some context ∧
      context.instruction = instruction ∧ value ∈ context.pushes := by
  simp only [Owns, Array.mem_iff_getElem?, context?]
  constructor
  · rintro ⟨context, ⟨id, entered⟩, owned⟩
    exact ⟨id, context, entered, owned⟩
  · rintro ⟨id, context, entered, owned⟩
    exact ⟨context, ⟨id, entered⟩, owned⟩

/-- The context that is found for an instruction and a value belongs to the one and pushed the
other. -/
theorem ownContext_eq_ok {asked : Instruction} {value : ValueId} {id : ContextId}
    {context : Context} (own : graph.ownContext asked value = .ok (id, context)) :
    graph.context? id = some context ∧ context.instruction = asked.id ∧ value ∈ context.pushes := by
  simp only [ownContext] at own
  split at own
  · cases own
  · split at own
    · cases own
    · next entered =>
      split at own
      · next owned =>
        cases own
        simp only [Bool.and_eq_true, decide_eq_true_eq] at owned
        exact ⟨entered, owned.1, owned.2⟩
      · cases own

/-- Whoever is asked for the value of another objects. -/
theorem ownContext_of_not_owns {asked : Instruction} {value : ValueId}
    (foreign : ¬graph.Owns asked.id value) :
    ∃ breach, graph.ownContext asked value = .error (.contractViolation breach) := by
  simp only [ownContext]
  split
  · exact ⟨_, rfl⟩
  · split
    · exact ⟨_, rfl⟩
    · next context entered =>
      split
      · next owned =>
        simp only [Bool.and_eq_true, decide_eq_true_eq] at owned
        exact absurd (owns_iff.mpr ⟨_, context, entered, owned⟩) foreign
      · exact ⟨_, rfl⟩

/-- What a duplication answers comes from the context in which it pushed the value. -/
theorem copies_eq_ok {duplication : Instruction} {value source other : ValueId} {id : ContextId}
    (known : graph.copies duplication value = .ok (id, source, other)) :
    ∃ context, graph.context? id = some context ∧ context.pops.head? = some source ∧
      other ∈ context.pushes ∧ context.pushes.length = 2 := by
  cases own : graph.ownContext duplication value with
  | error fault => simp [copies, own, bind, Except.bind] at known
  | ok owner =>
    obtain ⟨place, context⟩ := owner
    obtain ⟨entered, -, -⟩ := ownContext_eq_ok own
    cases popped : context.pops with
    | nil => simp [copies, copied, own, popped, bind, Except.bind] at known
    | cons first rest =>
      simp only [copies, copied, otherCopy, own, popped, bind, Except.bind, pure,
        Except.pure] at known
      split at known
      · cases known
      · next survivor paired =>
        cases known
        refine ⟨context, entered, by rw [popped, List.head?_cons], ?_⟩
        split at paired
        · next left right pushes =>
          rw [pushes]
          split at paired
          · cases paired
            simp
          · split at paired
            · cases paired
              simp
            · cases paired
        · cases paired

end ClassTrim.Graph
