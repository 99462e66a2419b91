import ClassTrim.Provenance.Source

/-!
# Looking things up in an edited graph

One equation for each edit of a provenance graph and each of the two lookups. They
say what an edit changes and, by the branch that leaves the lookup as it was, that
it changes nothing else. No later proof opens an edit: everything about a graph is
read through `value?` and `context?`.
-/

namespace ClassTrim.Graph

section Change

variable {α : Type} {before after : Nat → Option α} {change : α → α} {place other : Nat}

/-- After an edit at one place, what is found is the edited entry, or one of another place
that was there before. -/
theorem cases_of_change {old now : α}
    (law : ∀ other, after other =
      if place = other then (before other).map change else before other)
    (found : before place = some old) (looked : after other = some now) :
    (other = place ∧ now = change old) ∨ (other ≠ place ∧ before other = some now) := by
  rw [law] at looked
  split at looked
  · next same =>
    subst same
    rw [found] at looked
    exact .inl ⟨rfl, (Option.some.inj looked).symm⟩
  · next distinct => exact .inr ⟨Ne.symm distinct, looked⟩

/-- After an edit at one place every entry is found, edited or as it was. -/
theorem exists_of_change {old : α}
    (law : ∀ other, after other =
      if place = other then (before other).map change else before other)
    (looked : before other = some old) :
    ∃ now, after other = some now ∧ (now = old ∨ now = change old) := by
  rw [law, looked]
  split
  · exact ⟨_, rfl, .inr rfl⟩
  · exact ⟨_, rfl, .inl rfl⟩

/-- An edit at one place makes no entry appear. -/
theorem none_of_change
    (law : ∀ other, after other =
      if place = other then (before other).map change else before other)
    (missing : before other = none) : after other = none := by
  rw [law, missing, Option.map_none, ite_self]

end Change

/-- A new context is found behind all older ones. -/
theorem context?_openContext (graph : Graph) (instruction : Instruction) (frame : Nat)
    (id : ContextId) :
    (graph.openContext instruction frame).context? id =
      if id = graph.contexts.size then some (.opened instruction frame)
      else graph.context? id := by
  simp only [context?, openContext, Array.getElem?_push]

/-- The context that is opened takes the next number. -/
theorem context?_openContext_size (graph : Graph) (instruction : Instruction) (frame : Nat) :
    (graph.openContext instruction frame).context? graph.contexts.size =
      some (.opened instruction frame) := by
  rw [context?_openContext, if_pos rfl]

/-- Opening a context touches no value. -/
theorem value?_openContext (graph : Graph) (instruction : Instruction) (frame : Nat)
    (value : ValueId) :
    (graph.openContext instruction frame).value? value = graph.value? value := rfl

/-- A pop is noted in its context, behind the earlier ones. -/
theorem context?_recordPop (graph : Graph) (context id : ContextId) (value : ValueId) :
    (graph.recordPop context value).context? id =
      if context = id then
        (graph.context? id).map fun entry => { entry with pops := entry.pops ++ [value] }
      else graph.context? id := by
  simp only [context?, recordPop, Array.getElem?_modify]

/-- A pop is noted at the value that it takes. -/
theorem value?_recordPop (graph : Graph) (context : ContextId) (value other : ValueId) :
    (graph.recordPop context value).value? other =
      if value = other then
        (graph.value? other).map fun node => { node with poppedBy := node.poppedBy ++ [context] }
      else graph.value? other := by
  simp only [value?, recordPop, Array.getElem?_modify]

/-- A push is noted in its context, under the number that the new value takes. -/
theorem context?_recordPush (graph : Graph) (context id : ContextId) (content : Content) :
    (graph.recordPush context content).context? id =
      if context = id then
        (graph.context? id).map fun entry =>
          { entry with pushes := entry.pushes ++ [graph.values.size] }
      else graph.context? id := by
  simp only [context?, recordPush, Array.getElem?_modify]

/-- A new value is found behind all older ones. -/
theorem value?_recordPush (graph : Graph) (context : ContextId) (content : Content)
    (value : ValueId) :
    (graph.recordPush context content).value? value =
      if value = graph.values.size then some ⟨content, context, [], true⟩
      else graph.value? value := by
  simp only [value?, recordPush, Array.getElem?_push]

/-- Killing values changes whether they are live and nothing else. -/
theorem value?_killValues (values : List ValueId) (graph : Graph) (value : ValueId) :
    (values.foldl killValue graph).value? value =
      (graph.value? value).map fun node =>
        { node with live := node.live && decide (value ∉ values) } := by
  induction values generalizing graph with
  | nil => simp
  | cons head rest ih =>
    have one : (graph.killValue head).value? value =
        (graph.value? value).map fun node =>
          { node with live := node.live && decide (value ≠ head) } := by
      simp only [value?, killValue, Array.getElem?_modify]
      by_cases same : head = value
      · simp [same]
      · simp [same, Ne.symm same]
    rw [List.foldl_cons, ih, one, Option.map_map]
    congr 1
    funext node
    simp [Bool.and_assoc]

/-- A context that is dropped as a consumer of values is gone from those and from no others. -/
theorem value?_dropConsumers (values : List ValueId) (id : ContextId) (graph : Graph)
    (value : ValueId) :
    (values.foldl (fun rest value => rest.dropConsumer id value) graph).value? value =
      (graph.value? value).map fun node =>
        { node with
          poppedBy :=
            if value ∈ values then node.poppedBy.filter (· ≠ id) else node.poppedBy } := by
  induction values generalizing graph with
  | nil => simp
  | cons head rest ih =>
    have one : (graph.dropConsumer id head).value? value =
        (graph.value? value).map fun node =>
          { node with
            poppedBy :=
              if value = head then node.poppedBy.filter (· ≠ id) else node.poppedBy } := by
      simp only [value?, dropConsumer, Array.getElem?_modify]
      by_cases same : head = value
      · simp [same]
      · simp [same, Ne.symm same]
    rw [List.foldl_cons, ih, one, Option.map_map]
    congr 1
    funext node
    by_cases first : value = head <;> by_cases later : value ∈ rest <;> simp [first, later]

/-- Detaching a context kills it and keeps every other one. -/
theorem context?_detach (graph : Graph) (id other : ContextId) :
    (graph.detach id).context? other =
      if id = other then (graph.context? other).map fun entry => { entry with live := false }
      else graph.context? other := by
  simp only [context?, contexts_detach, Array.getElem?_modify]

/-- Detaching a context kills what it pushed, and makes what it popped forget it. -/
theorem value?_detach (graph : Graph) (id : ContextId) (context : Context)
    (found : graph.context? id = some context) (value : ValueId) :
    (graph.detach id).value? value =
      (graph.value? value).map fun node =>
        { node with
          live := node.live && decide (value ∉ context.pushes)
          poppedBy :=
            if value ∈ context.pops then node.poppedBy.filter (· ≠ id) else node.poppedBy } := by
  simp only [detach, found]
  rw [value?_dropConsumers, value?_killValues, Option.map_map]
  rfl

/-- Substituting one pop of a context changes the pops of that context only. -/
theorem context?_substitute {graph changed : Graph} {id : ContextId} {old new : ValueId}
    (done : graph.substitute id old new = .ok changed) (other : ContextId) :
    changed.context? other =
      if id = other then
        (graph.context? other).map fun entry =>
          { entry with pops := replaceFirst old new entry.pops }
      else graph.context? other := by
  simp only [substitute] at done
  split at done
  · cases done
    simp only [context?, dropConsumer, Array.getElem?_modify]
  · cases done

/-- Substituting one pop of a context moves that context from the consumers of the
old value to those of the new one. -/
theorem value?_substitute {graph changed : Graph} {id : ContextId} {old new : ValueId}
    (done : graph.substitute id old new = .ok changed) (distinct : old ≠ new) (value : ValueId) :
    changed.value? value =
      (graph.value? value).map fun node =>
        { node with
          poppedBy :=
            if value = old then node.poppedBy.filter (· ≠ id)
            else if value = new then node.poppedBy ++ [id]
            else node.poppedBy } := by
  simp only [substitute] at done
  split at done
  · cases done
    simp only [value?, dropConsumer, Array.getElem?_modify]
    by_cases isOld : value = old
    · subst isOld
      simp [Ne.symm distinct]
    · by_cases isNew : value = new
      · subst isNew
        simp [distinct, Ne.symm distinct]
      · simp [isOld, isNew, Ne.symm isOld, Ne.symm isNew]
  · cases done

/-- An edit that changes no content of a node keeps what is known about its value. -/
theorem content_eq_of_value? {graph changed : Graph} {value : ValueId}
    {change : ValueNode → ValueNode} (kept : ∀ node, (change node).content = node.content)
    (found : changed.value? value = (graph.value? value).map change) :
    changed.content value = graph.content value := by
  simp only [content, found, Option.map_map]
  congr 2
  funext node
  exact kept node

/-- A pop changes no content. -/
theorem content_recordPop (graph : Graph) (context : ContextId) (value other : ValueId) :
    (graph.recordPop context value).content other = graph.content other := by
  simp only [content, value?_recordPop]
  split <;> simp [Function.comp_def]

/-- A push makes its content known under the new identity. -/
theorem content_recordPush (graph : Graph) (context : ContextId) (content : Content)
    (value : ValueId) :
    (graph.recordPush context content).content value =
      if value = graph.values.size then content else graph.content value := by
  simp only [Graph.content, value?_recordPush]
  split <;> simp

end ClassTrim.Graph
