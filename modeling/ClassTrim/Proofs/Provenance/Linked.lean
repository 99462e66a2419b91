import ClassTrim.Proofs.Provenance.Lookup
import ClassTrim.Provenance.Consistency

/-!
# Graphs whose edges are recorded at both ends

`Linked` is what every graph satisfies between two edits. It says more than the
consistency check tests: a value is live exactly when its producer is, it has at most
one consumer, its consumers are live, and live contexts pop live values. The check
never fails on a linked graph.

Opening a context, and recording a pop or a push on its behalf, keep a graph linked.
A pop is recorded of a value that nobody has popped yet; a frame's stack holds only
such values.
-/

namespace ClassTrim.Graph

/-- Every edge of the graph is known at both of its ends, and a value is popped at
most once. -/
structure Linked (graph : Graph) : Prop where
  /-- A value names the context that lists it among its pushes. -/
  pushed : ∀ {id context value}, graph.context? id = some context → value ∈ context.pushes →
    ∃ node, graph.value? value = some node ∧ node.pushedBy = id
  /-- A value is among the pushes of the context that it names, and lives as long. -/
  produced : ∀ {value node}, graph.value? value = some node →
    ∃ context, graph.context? node.pushedBy = some context ∧ value ∈ context.pushes ∧
      node.live = context.live
  /-- A live context pops live values, and is the only one to pop them. -/
  popped : ∀ {id context value}, graph.context? id = some context → context.live = true →
    value ∈ context.pops →
    ∃ node, graph.value? value = some node ∧ node.live = true ∧ node.poppedBy = [id]
  /-- Whoever is said to pop a value is live and does pop it. -/
  consumed : ∀ {value node id}, graph.value? value = some node → id ∈ node.poppedBy →
    ∃ context, graph.context? id = some context ∧ context.live = true ∧ value ∈ context.pops
  popsDistinct : ∀ {id context}, graph.context? id = some context → context.live = true →
    context.pops.Nodup
  pushesDistinct : ∀ {id context}, graph.context? id = some context → context.pushes.Nodup

/-- A value that is found has a number below the size of the graph. -/
theorem lt_of_value? {graph : Graph} {value : ValueId} {node : ValueNode}
    (found : graph.value? value = some node) : value < graph.values.size :=
  (Array.getElem?_eq_some_iff.mp found).1

/-- A context that is found has a number below the size of the graph. -/
theorem lt_of_context? {graph : Graph} {id : ContextId} {context : Context}
    (found : graph.context? id = some context) : id < graph.contexts.size :=
  (Array.getElem?_eq_some_iff.mp found).1

/-- A context that is found is as live as it says. -/
theorem isLive_of_context? {graph : Graph} {id : ContextId} {context : Context}
    (found : graph.context? id = some context) : graph.isLive id = context.live := by
  simp [isLive, found]

namespace Linked

variable {graph : Graph}

/-- Nothing recorded, nothing inconsistent. -/
theorem empty : Graph.empty.Linked := by
  constructor <;> simp [Graph.empty, context?, value?]

/-- A value has the consumers that it names: they are all live. -/
theorem liveConsumers_eq (linked : graph.Linked) {value : ValueId} {node : ValueNode}
    (found : graph.value? value = some node) : graph.liveConsumers value = node.poppedBy := by
  simp only [liveConsumers, found]
  refine List.filter_eq_self.mpr ?_
  intro id member
  obtain ⟨context, entered, live, _⟩ := linked.consumed found member
  rw [isLive_of_context? entered, live]

/-- A value that somebody pops is popped by nobody else. -/
theorem poppedBy_eq (linked : graph.Linked) {value : ValueId} {node : ValueNode} {id : ContextId}
    (found : graph.value? value = some node) (member : id ∈ node.poppedBy) :
    node.poppedBy = [id] := by
  obtain ⟨context, entered, live, pops⟩ := linked.consumed found member
  obtain ⟨same, again, _, only⟩ := linked.popped entered live pops
  rw [found, Option.some.injEq] at again
  rw [again, only]

/-- No value has two consumers. -/
theorem length_liveConsumers_le (linked : graph.Linked) (value : ValueId) :
    (graph.liveConsumers value).length ≤ 1 := by
  cases found : graph.value? value with
  | none => simp [liveConsumers, found]
  | some node =>
    rw [linked.liveConsumers_eq found]
    cases consumers : node.poppedBy with
    | nil => simp
    | cons id rest =>
      have member : id ∈ node.poppedBy := by simp [consumers]
      have single := linked.poppedBy_eq found member
      rw [consumers] at single
      simp [single]

/-- A value that is popped is live. -/
theorem live_of_poppedBy (linked : graph.Linked) {value : ValueId} {node : ValueNode}
    {id : ContextId} (found : graph.value? value = some node) (member : id ∈ node.poppedBy) :
    node.live = true := by
  obtain ⟨context, entered, live, pops⟩ := linked.consumed found member
  obtain ⟨same, again, alive, _⟩ := linked.popped entered live pops
  rw [found, Option.some.injEq] at again
  rw [again, alive]

/-- No two live contexts pop one value. -/
theorem eq_of_mem_pops (linked : graph.Linked) {first second : ContextId}
    {left right : Context} {value : ValueId} (atFirst : graph.context? first = some left)
    (atSecond : graph.context? second = some right) (leftLive : left.live = true)
    (rightLive : right.live = true) (leftPops : value ∈ left.pops)
    (rightPops : value ∈ right.pops) : first = second := by
  obtain ⟨node, found, _, onlyFirst⟩ := linked.popped atFirst leftLive leftPops
  obtain ⟨same, again, _, onlySecond⟩ := linked.popped atSecond rightLive rightPops
  rw [found, Option.some.injEq] at again
  rw [← again, onlyFirst] at onlySecond
  exact (List.cons.inj onlySecond).1

/-- A live context does not pop what has no consumer. -/
theorem not_mem_pops_of_idle (linked : graph.Linked) {id : ContextId} {context : Context}
    {value : ValueId} (idle : graph.liveConsumers value = [])
    (entered : graph.context? id = some context) (live : context.live = true) :
    value ∉ context.pops := by
  intro member
  obtain ⟨node, found, _, only⟩ := linked.popped entered live member
  rw [linked.liveConsumers_eq found, only] at idle
  cases idle

/-- The values that a context pushed are those that name it. -/
theorem mem_pushes_iff (linked : graph.Linked) {id : ContextId} {context : Context}
    {value : ValueId} {node : ValueNode} (entered : graph.context? id = some context)
    (found : graph.value? value = some node) :
    value ∈ context.pushes ↔ node.pushedBy = id := by
  constructor
  · intro member
    obtain ⟨same, again, producer⟩ := linked.pushed entered member
    rw [found, Option.some.injEq] at again
    rw [again, producer]
  · intro producer
    obtain ⟨entry, looked, member, _⟩ := linked.produced found
    rw [producer, entered, Option.some.injEq] at looked
    exact looked ▸ member

/-- The consistency check accepts every linked graph. -/
theorem check_eq_ok (linked : graph.Linked) : graph.check = .ok () := by
  have contexts : (List.range graph.contexts.size).findSome? graph.inspectContext = none := by
    rw [List.findSome?_eq_none_iff]
    intro id _
    cases entered : graph.context? id with
    | none => simp [inspectContext, entered]
    | some context =>
      by_cases live : context.live = true
      · have pops : context.pops.findSome? (graph.inspectPop id) = none := by
          rw [List.findSome?_eq_none_iff]
          intro value member
          obtain ⟨node, found, _, only⟩ := linked.popped entered live member
          simp [inspectPop, found, only]
        have pushes : context.pushes.findSome? (graph.inspectPush id) = none := by
          rw [List.findSome?_eq_none_iff]
          intro value member
          obtain ⟨node, found, producer⟩ := linked.pushed entered member
          simp [inspectPush, found, producer]
        simp [inspectContext, entered, live, pops, pushes]
      · simp [inspectContext, entered, live]
  have values : (List.range graph.values.size).findSome? graph.inspectValue = none := by
    rw [List.findSome?_eq_none_iff]
    intro value _
    cases found : graph.value? value with
    | none => simp [inspectValue, found]
    | some node =>
      by_cases live : node.live = true
      · obtain ⟨producer, entered, member, _⟩ := linked.produced found
        have consumers :
            (graph.liveConsumers value).findSome? (graph.inspectConsumer value) = none := by
          rw [List.findSome?_eq_none_iff, linked.liveConsumers_eq found]
          intro id consumer
          obtain ⟨context, entered, _, pops⟩ := linked.consumed found consumer
          simp [inspectConsumer, entered, pops]
        simp [inspectValue, found, live, entered, member, consumers]
      · simp [inspectValue, found, live]
  simp [check, inconsistency?, contexts, values]

/-- A new context has no edges yet. -/
theorem openContext (linked : graph.Linked) (instruction : Instruction) (frame : Nat) :
    (graph.openContext instruction frame).Linked := by
  -- A context found in the new graph is an old one, or the new one without any edge.
  have cases : ∀ {id context}, (graph.openContext instruction frame).context? id = some context →
      graph.context? id = some context ∨ context = .opened instruction frame := by
    intro id context entered
    rw [context?_openContext] at entered
    split at entered
    · exact .inr (Option.some.inj entered).symm
    · exact .inl entered
  have kept : ∀ {id context}, graph.context? id = some context →
      (graph.openContext instruction frame).context? id = some context := by
    intro id context entered
    rw [context?_openContext, if_neg (Nat.ne_of_lt (lt_of_context? entered)), entered]
  refine ⟨?_, ?_, ?_, ?_, ?_, ?_⟩
  · intro id context value entered member
    rcases cases entered with old | rfl
    · exact linked.pushed old member
    · simp [Context.opened] at member
  · intro value node found
    obtain ⟨context, entered, rest⟩ := linked.produced found
    exact ⟨context, kept entered, rest⟩
  · intro id context value entered live member
    rcases cases entered with old | rfl
    · exact linked.popped old live member
    · simp [Context.opened] at member
  · intro value node id found member
    obtain ⟨context, entered, rest⟩ := linked.consumed found member
    exact ⟨context, kept entered, rest⟩
  · intro id context entered live
    rcases cases entered with old | rfl
    · exact linked.popsDistinct old live
    · simp [Context.opened]
  · intro id context entered
    rcases cases entered with old | rfl
    · exact linked.pushesDistinct old
    · simp [Context.opened]

/-- A live context may pop a live value that nobody has popped yet. -/
theorem recordPop (linked : graph.Linked) {id : ContextId} {context : Context} {value : ValueId}
    {node : ValueNode} (entered : graph.context? id = some context) (live : context.live = true)
    (found : graph.value? value = some node) (alive : node.live = true)
    (free : node.poppedBy = []) : (graph.recordPop id value).Linked := by
  have contexts : ∀ {other entry}, (graph.recordPop id value).context? other = some entry →
      (other = id ∧ entry = { context with pops := context.pops ++ [value] }) ∨
        (other ≠ id ∧ graph.context? other = some entry) :=
    cases_of_change (fun other => context?_recordPop graph id other value) entered
  have values : ∀ {other entry}, (graph.recordPop id value).value? other = some entry →
      (other = value ∧ entry = { node with poppedBy := [id] }) ∨
        (other ≠ value ∧ graph.value? other = some entry) := by
    intro other entry looked
    have cases := cases_of_change (value?_recordPop graph id value) found looked
    rwa [free, List.nil_append] at cases
  have keptContext : ∀ {other entry}, graph.context? other = some entry →
      ∃ now, (graph.recordPop id value).context? other = some now ∧ now.live = entry.live ∧
        now.pushes = entry.pushes ∧ ∀ earlier ∈ entry.pops, earlier ∈ now.pops := by
    intro other entry looked
    obtain ⟨now, present, rfl | rfl⟩ :=
      exists_of_change (fun other => context?_recordPop graph id other value) looked
    · exact ⟨now, present, rfl, rfl, fun _ member => member⟩
    · exact ⟨_, present, rfl, rfl, fun _ member => List.mem_append_left _ member⟩
  have keptValue : ∀ {other entry}, graph.value? other = some entry → other ≠ value →
      (graph.recordPop id value).value? other = some entry := by
    intro other entry looked distinct
    rw [value?_recordPop, if_neg (Ne.symm distinct), looked]
  have taken : (graph.recordPop id value).value? value = some { node with poppedBy := [id] } := by
    simp [value?_recordPop, found, free]
  have unlisted : ∀ {other entry}, graph.context? other = some entry → entry.live = true →
      value ∉ entry.pops :=
    linked.not_mem_pops_of_idle ((linked.liveConsumers_eq found).trans free)
  refine ⟨?_, ?_, ?_, ?_, ?_, ?_⟩
  · intro other entry pushed looked member
    have old : ∃ node, graph.value? pushed = some node ∧ node.pushedBy = other := by
      rcases contexts looked with ⟨rfl, rfl⟩ | ⟨_, old⟩
      · exact linked.pushed entered member
      · exact linked.pushed old member
    obtain ⟨origin, present, producer⟩ := old
    by_cases same : pushed = value
    · subst same
      rw [found, Option.some.injEq] at present
      exact ⟨_, taken, present ▸ producer⟩
    · exact ⟨origin, keptValue present same, producer⟩
  · intro other entry looked
    have old : ∃ context, graph.context? entry.pushedBy = some context ∧
        other ∈ context.pushes ∧ entry.live = context.live := by
      rcases values looked with ⟨rfl, rfl⟩ | ⟨_, old⟩
      · obtain ⟨producer, rest⟩ := linked.produced found
        exact ⟨producer, rest⟩
      · exact linked.produced old
    obtain ⟨producer, present, member, same⟩ := old
    obtain ⟨now, present, live, pushes, _⟩ := keptContext present
    exact ⟨now, present, pushes ▸ member, same.trans live.symm⟩
  · intro other entry popped looked alive' member
    rcases contexts looked with ⟨rfl, rfl⟩ | ⟨distinct, old⟩
    · rcases List.mem_append.mp member with earlier | last
      · obtain ⟨origin, present, rest⟩ := linked.popped entered live earlier
        have different : popped ≠ value := fun same => unlisted entered live (same ▸ earlier)
        exact ⟨origin, keptValue present different, rest⟩
      · rw [List.mem_singleton.mp last]
        exact ⟨_, taken, alive, rfl⟩
    · obtain ⟨origin, present, rest⟩ := linked.popped old alive' member
      have different : popped ≠ value := fun same => unlisted old alive' (same ▸ member)
      exact ⟨origin, keptValue present different, rest⟩
  · intro other entry consumer looked member
    rcases values looked with ⟨rfl, rfl⟩ | ⟨_, old⟩
    · rw [List.mem_singleton.mp member]
      refine ⟨{ context with pops := context.pops ++ [other] }, ?_, live, by simp⟩
      simp [context?_recordPop, entered]
    · obtain ⟨taker, present, alive', pops⟩ := linked.consumed old member
      obtain ⟨now, present, same, _, kept⟩ := keptContext present
      exact ⟨now, present, same.trans alive', kept _ pops⟩
  · intro other entry looked alive'
    rcases contexts looked with ⟨rfl, rfl⟩ | ⟨_, old⟩
    · refine List.nodup_append.mpr ⟨linked.popsDistinct entered live, by simp, ?_⟩
      intro first member second last same
      rw [List.mem_singleton.mp last] at same
      exact unlisted entered live (same ▸ member)
    · exact linked.popsDistinct old alive'
  · intro other entry looked
    rcases contexts looked with ⟨rfl, rfl⟩ | ⟨_, old⟩
    · have distinct := linked.pushesDistinct entered
      exact distinct
    · exact linked.pushesDistinct old

/-- A live context may push a new value. -/
theorem recordPush (linked : graph.Linked) {id : ContextId} {context : Context}
    (entered : graph.context? id = some context) (live : context.live = true)
    (content : Content) : (graph.recordPush id content).Linked := by
  have contexts : ∀ {other entry}, (graph.recordPush id content).context? other = some entry →
      (other = id ∧ entry = { context with pushes := context.pushes ++ [graph.values.size] }) ∨
        (other ≠ id ∧ graph.context? other = some entry) :=
    cases_of_change (fun other => context?_recordPush graph id other content) entered
  have keptContext : ∀ {other entry}, graph.context? other = some entry →
      ∃ now, (graph.recordPush id content).context? other = some now ∧ now.live = entry.live ∧
        now.pops = entry.pops ∧ ∀ earlier ∈ entry.pushes, earlier ∈ now.pushes := by
    intro other entry looked
    obtain ⟨now, present, rfl | rfl⟩ :=
      exists_of_change (fun other => context?_recordPush graph id other content) looked
    · exact ⟨now, present, rfl, rfl, fun _ member => member⟩
    · exact ⟨_, present, rfl, rfl, fun _ member => List.mem_append_left _ member⟩
  have keptValue : ∀ {value node}, graph.value? value = some node →
      (graph.recordPush id content).value? value = some node := by
    intro value node found
    rw [value?_recordPush, if_neg (Nat.ne_of_lt (lt_of_value? found)), found]
  refine ⟨?_, ?_, ?_, ?_, ?_, ?_⟩
  · intro other entry value looked member
    rcases contexts looked with ⟨rfl, rfl⟩ | ⟨_, old⟩
    · rcases List.mem_append.mp member with earlier | last
      · obtain ⟨node, found, producer⟩ := linked.pushed entered earlier
        exact ⟨node, keptValue found, producer⟩
      · rw [List.mem_singleton.mp last]
        exact ⟨⟨content, other, [], true⟩, by simp [value?_recordPush], rfl⟩
    · obtain ⟨node, found, producer⟩ := linked.pushed old member
      exact ⟨node, keptValue found, producer⟩
  · intro value node looked
    rw [value?_recordPush] at looked
    split at looked
    · next last =>
      cases looked
      refine ⟨{ context with pushes := context.pushes ++ [graph.values.size] }, ?_, ?_, live.symm⟩
      · simp [context?_recordPush, entered]
      · simp [last]
    · obtain ⟨producer, present, member, same⟩ := linked.produced looked
      obtain ⟨now, present, live, _, kept⟩ := keptContext present
      exact ⟨now, present, kept _ member, same.trans live.symm⟩
  · intro other entry value looked alive member
    have old : ∃ node, graph.value? value = some node ∧ node.live = true ∧
        node.poppedBy = [other] := by
      rcases contexts looked with ⟨rfl, rfl⟩ | ⟨_, old⟩
      · exact linked.popped entered live member
      · exact linked.popped old alive member
    obtain ⟨node, found, rest⟩ := old
    exact ⟨node, keptValue found, rest⟩
  · intro value node consumer looked member
    rw [value?_recordPush] at looked
    split at looked
    · cases looked
      simp at member
    · obtain ⟨taker, present, alive, pops⟩ := linked.consumed looked member
      obtain ⟨now, present, same, kept, _⟩ := keptContext present
      exact ⟨now, present, same.trans alive, kept ▸ pops⟩
  · intro other entry looked alive
    rcases contexts looked with ⟨rfl, rfl⟩ | ⟨_, old⟩
    · have distinct := linked.popsDistinct entered live
      exact distinct
    · exact linked.popsDistinct old alive
  · intro other entry looked
    rcases contexts looked with ⟨rfl, rfl⟩ | ⟨_, old⟩
    · refine List.nodup_append.mpr ⟨linked.pushesDistinct entered, by simp, ?_⟩
      intro first member second last same
      obtain ⟨node, found, _⟩ := linked.pushed entered member
      rw [List.mem_singleton.mp last] at same
      exact Nat.ne_of_lt (lt_of_value? found) same
    · exact linked.pushesDistinct old

end Linked

end ClassTrim.Graph
