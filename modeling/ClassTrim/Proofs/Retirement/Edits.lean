import ClassTrim.Proofs.Retirement.Steps

/-!
# What the edits of a removal leave as it was

Each edit concerns one instruction. The others keep their contexts, so what they pop and
push stays what it was, except that the duplicated value takes the place of a copy when a
duplication is taken out. What is known about a value never changes, so neither does how wide
it is.
-/

namespace ClassTrim

/-- Whether a value exists and is live. -/
def Graph.isLiveValue (graph : Graph) (value : ValueId) : Bool :=
  (graph.value? value).any (·.live)

/-- A value that is found is as live as its node says. -/
theorem Graph.isLiveValue_of_value? {graph : Graph} {value : ValueId} {node : ValueNode}
    (found : graph.value? value = some node) : graph.isLiveValue value = node.live := by
  simp [isLiveValue, found]

namespace Session

variable {session next : Session} {instruction other : Instruction} {id place : ContextId}
  {context entry : Context} {waiting rest : List ValueId}

namespace Sound

/-- What an instruction of the body pops stands in the context that it has. -/
theorem popsOf_eq (sound : session.Sound) (hosts : session.Hosts instruction id context) :
    session.graph.popsOf instruction.id = context.pops := by
  rw [← hosts.records.same]
  exact Graph.popsOf_eq sound.single hosts.found

/-- What an instruction of the body pushes stands in the context that it has. -/
theorem pushesOf_eq (sound : session.Sound) (hosts : session.Hosts instruction id context) :
    session.graph.pushesOf instruction.id = context.pushes := by
  rw [← hosts.records.same]
  exact Graph.pushesOf_eq sound.single hosts.found

/-- What an instruction of the body pushed is live. -/
theorem isLiveValue_of_mem_pushes (sound : session.Sound)
    (hosts : session.Hosts instruction id context) {value : ValueId}
    (pushed : value ∈ context.pushes) : session.graph.isLiveValue value = true := by
  obtain ⟨node, present, producer⟩ := sound.linked.pushed hosts.found pushed
  obtain ⟨entry, looked, _, same⟩ := sound.linked.produced present
  rw [producer, hosts.found, Option.some.injEq] at looked
  rw [Graph.isLiveValue_of_value? present, same, ← looked, hosts.live]

/-- No two instructions of the body pushed one value. -/
theorem id_eq_of_mem_pushes (sound : session.Sound)
    (hosts : session.Hosts instruction id context) (others : session.Hosts other place entry)
    {value : ValueId} (pushed : value ∈ context.pushes) (again : value ∈ entry.pushes) :
    instruction.id = other.id := by
  obtain ⟨node, present, producer⟩ := sound.linked.pushed hosts.found pushed
  obtain ⟨same, presentAgain, producerAgain⟩ := sound.linked.pushed others.found again
  rw [present, Option.some.injEq] at presentAgain
  have samePlace : id = place := by rw [← producer, ← producerAgain, presentAgain]
  have found := others.found
  rw [← samePlace, hosts.found, Option.some.injEq] at found
  rw [← hosts.records.same, ← others.records.same, found]

/-- No two instructions of the body pop one value. -/
theorem id_eq_of_mem_pops (sound : session.Sound)
    (hosts : session.Hosts instruction id context) (others : session.Hosts other place entry)
    {value : ValueId} (popped : value ∈ context.pops) (again : value ∈ entry.pops) :
    instruction.id = other.id := by
  have samePlace := sound.linked.eq_of_mem_pops hosts.found others.found hosts.live others.live
    popped again
  have found := others.found
  rw [← samePlace, hosts.found, Option.some.injEq] at found
  rw [← hosts.records.same, ← others.records.same, found]

/-- A value that is not stranded, and that nobody pops, is dead. -/
theorem dead_of_not_stranded (sound : session.Sound) {value : ValueId}
    (settled : session.graph.stranded? value = none)
    (idle : ∀ instruction ∈ session.body.instructions,
      value ∉ session.graph.popsOf instruction.id) :
    session.graph.isLiveValue value = false := by
  cases present : session.graph.value? value with
  | none => simp [Graph.isLiveValue, present]
  | some node =>
    have untaken : session.graph.liveConsumers value = [] := by
      rw [sound.linked.liveConsumers_eq present]
      apply List.eq_nil_iff_forall_not_mem.mpr
      intro consumer member
      obtain ⟨context, found, live, popped⟩ := sound.linked.consumed present member
      obtain ⟨instruction, inside, records⟩ := sound.hosted found live
      have hosts : session.Hosts instruction consumer context := ⟨inside, found, live, records⟩
      exact idle instruction inside (sound.popsOf_eq hosts ▸ popped)
    obtain ⟨producer, found, pushed, same⟩ := sound.linked.produced present
    rw [Graph.isLiveValue_of_value? present, same]
    have notSource : producer.isSource = false := by
      simpa [Graph.stranded?, Graph.hasLiveConsumers, untaken, Graph.producer?, present,
        found] using settled
    have some : producer.pushes.isEmpty = false :=
      List.isEmpty_eq_false_iff.mpr (List.ne_nil_of_mem pushed)
    simpa [Context.isSource, some] using notSource

/-- An instruction that a deletion leaves in the body keeps its context. -/
theorem hosts_deleted (deletes : session.Deletes instruction id context)
    (hosts : session.Hosts other place entry) (distinct : other.id ≠ instruction.id) :
    (session.deleted instruction id).Hosts other place entry where
  member := (Body.mem_erase deletes.member).mpr ⟨hosts.member, distinct⟩
  found := by
    have apart : id ≠ place := by
      intro same
      have found := deletes.found
      rw [same, hosts.found, Option.some.injEq] at found
      exact distinct (hosts.records.same.symm.trans (found ▸ deletes.records.same))
    have looked : (session.deleted instruction id).graph.context? place =
        (session.graph.detach id).context? place := rfl
    rw [looked, Graph.context?_detach, if_neg apart, hosts.found]
  live := hosts.live
  records := hosts.records

/-- After a duplication was taken out, contexts pop the duplicated value in the place of
the surviving copy. -/
theorem hosts_collapsed (sound : session.Sound) {source released survivor : ValueId}
    {taker : ContextId} {rewired : Graph}
    (collapses : session.Collapses instruction id context source released survivor taker rewired)
    (hosts : session.Hosts other place entry) (distinct : other.id ≠ instruction.id) :
    (session.collapsed instruction id rewired).Hosts other place
      { entry with pops := entry.pops.map (Graph.rename survivor source) } where
  member := (Body.mem_erase collapses.member).mpr ⟨hosts.member, distinct⟩
  found := by
    have apart : place ≠ id := by
      intro same
      have found := collapses.found
      rw [← same, hosts.found, Option.some.injEq] at found
      exact distinct (hosts.records.same.symm.trans (found ▸ collapses.records.same))
    exact collapses.bypass.context?_of_live sound.linked sound.ordered collapses.done
      hosts.found hosts.live apart
  live := hosts.live
  records := by
    refine ⟨hosts.records.same, hosts.records.duplication, ?_⟩
    have fulfils := hosts.records.fulfils
    simp only [Context.fulfils, List.length_map] at fulfils ⊢
    exact fulfils

/-- A discard that is inserted leaves the contexts of all other instructions alone. -/
theorem hosts_discarded {released : ValueId}
    (discards : session.Discards instruction id context released)
    (hosts : session.Hosts other place entry) :
    (session.discarded instruction released).Hosts other place entry where
  member := (Body.mem_splice discards.member).mpr (.inl hosts.member)
  found := Graph.context?_take_of_some hosts.found
  live := hosts.live
  records := hosts.records

/-- The inserted discard has a context of its own, in which it takes the released value. -/
theorem hosts_taker {released : ValueId}
    (discards : session.Discards instruction id context released) :
    (session.discarded instruction released).Hosts (session.taker instruction released)
      session.graph.contexts.size
      { Context.opened (session.taker instruction released) session.simulation.frame.id with
        pops := [released] } where
  member := (Body.mem_splice discards.member).mpr (.inr rfl)
  found := (Graph.context?_take ..).trans (if_pos rfl)
  live := rfl
  records := records_taker ..

/-- Whatever a deletion leaves in the body was there before, with the same context. -/
theorem stays_deleted (sound : session.Sound) (deletes : session.Deletes instruction id context)
    (member : other ∈ (session.deleted instruction id).body.instructions) :
    other.id ≠ instruction.id ∧ ∃ place entry, session.Hosts other place entry ∧
      (session.deleted instruction id).Hosts other place entry := by
  obtain ⟨inside, distinct⟩ := (Body.mem_erase deletes.member).mp member
  obtain ⟨place, entry, hosts⟩ := sound.exists_hosts inside
  exact ⟨distinct, place, entry, hosts, hosts_deleted deletes hosts distinct⟩

/-- A deletion changes nothing about what the other instructions pop. -/
theorem popsOf_deleted (sound : session.Sound) (deletes : session.Deletes instruction id context)
    (member : other ∈ (session.deleted instruction id).body.instructions) :
    (session.deleted instruction id).graph.popsOf other.id = session.graph.popsOf other.id := by
  obtain ⟨_, place, entry, before, behind⟩ := sound.stays_deleted deletes member
  rw [sound.popsOf_eq before, (sound.deleted deletes).popsOf_eq behind]

/-- A deletion changes nothing about what the other instructions push. -/
theorem pushesOf_deleted (sound : session.Sound)
    (deletes : session.Deletes instruction id context)
    (member : other ∈ (session.deleted instruction id).body.instructions) :
    (session.deleted instruction id).graph.pushesOf other.id =
      session.graph.pushesOf other.id := by
  obtain ⟨_, place, entry, before, behind⟩ := sound.stays_deleted deletes member
  rw [sound.pushesOf_eq before, (sound.deleted deletes).pushesOf_eq behind]

section Collapsed

variable {source released survivor : ValueId} {taker : ContextId} {rewired : Graph}

/-- What a collapse leaves in the body keeps its context, with the copy renamed to what it is a copy
of. -/
theorem stays_collapsed (sound : session.Sound)
    (collapses : session.Collapses instruction id context source released survivor taker rewired)
    (member : other ∈ (session.collapsed instruction id rewired).body.instructions) :
    other.id ≠ instruction.id ∧ ∃ place entry, session.Hosts other place entry ∧
      (session.collapsed instruction id rewired).Hosts other place
        { entry with pops := entry.pops.map (Graph.rename survivor source) } := by
  obtain ⟨inside, distinct⟩ := (Body.mem_erase collapses.member).mp member
  obtain ⟨place, entry, hosts⟩ := sound.exists_hosts inside
  exact ⟨distinct, place, entry, hosts, sound.hosts_collapsed collapses hosts distinct⟩

/-- After a collapse the duplicated value is popped in the place of its copy. -/
theorem popsOf_collapsed (sound : session.Sound)
    (collapses : session.Collapses instruction id context source released survivor taker rewired)
    (member : other ∈ (session.collapsed instruction id rewired).body.instructions) :
    (session.collapsed instruction id rewired).graph.popsOf other.id =
      (session.graph.popsOf other.id).map (Graph.rename survivor source) := by
  obtain ⟨_, place, entry, before, behind⟩ := sound.stays_collapsed collapses member
  rw [sound.popsOf_eq before, (sound.collapsed collapses).popsOf_eq behind]

/-- A collapse changes nothing about what the other instructions push. -/
theorem pushesOf_collapsed (sound : session.Sound)
    (collapses : session.Collapses instruction id context source released survivor taker rewired)
    (member : other ∈ (session.collapsed instruction id rewired).body.instructions) :
    (session.collapsed instruction id rewired).graph.pushesOf other.id =
      session.graph.pushesOf other.id := by
  obtain ⟨_, place, entry, before, behind⟩ := sound.stays_collapsed collapses member
  rw [sound.pushesOf_eq before, (sound.collapsed collapses).pushesOf_eq behind]

end Collapsed

section Discarded

variable {released : ValueId}

/-- An inserted discard changes nothing about what the others pop. -/
theorem popsOf_discarded (sound : session.Sound)
    (discards : session.Discards instruction id context released)
    (member : other ∈ session.body.instructions) :
    (session.discarded instruction released).graph.popsOf other.id =
      session.graph.popsOf other.id := by
  obtain ⟨place, entry, hosts⟩ := sound.exists_hosts member
  rw [sound.popsOf_eq hosts, (sound.discarded discards).popsOf_eq (hosts_discarded discards hosts)]

/-- An inserted discard changes nothing about what the others push. -/
theorem pushesOf_discarded (sound : session.Sound)
    (discards : session.Discards instruction id context released)
    (member : other ∈ session.body.instructions) :
    (session.discarded instruction released).graph.pushesOf other.id =
      session.graph.pushesOf other.id := by
  obtain ⟨place, entry, hosts⟩ := sound.exists_hosts member
  rw [sound.pushesOf_eq hosts,
    (sound.discarded discards).pushesOf_eq (hosts_discarded discards hosts)]

/-- The inserted discard pops the released value alone. -/
theorem popsOf_taker (sound : session.Sound)
    (discards : session.Discards instruction id context released) :
    (session.discarded instruction released).graph.popsOf
      (session.taker instruction released).id = [released] :=
  (sound.discarded discards).popsOf_eq (hosts_taker discards)

/-- The inserted discard pushes nothing. -/
theorem pushesOf_taker (sound : session.Sound)
    (discards : session.Discards instruction id context released) :
    (session.discarded instruction released).graph.pushesOf
      (session.taker instruction released).id = [] :=
  (sound.discarded discards).pushesOf_eq (hosts_taker discards)

end Discarded

end Sound

/-- What is known about a value does not change. -/
theorem content_deleted (deletes : session.Deletes instruction id context) (value : ValueId) :
    (session.deleted instruction id).graph.content value = session.graph.content value :=
  Graph.content_eq_of_value? (by intro node; rfl)
    (Graph.value?_detach _ id context deletes.found value)

/-- A collapse changes no content. -/
theorem content_collapsed (sound : session.Sound) {source released survivor : ValueId}
    {taker : ContextId} {rewired : Graph}
    (collapses :
      session.Collapses instruction id context source released survivor taker rewired)
    (value : ValueId) :
    (session.collapsed instruction id rewired).graph.content value =
      session.graph.content value :=
  Graph.content_eq_of_value? (by intro node; rfl)
    (collapses.bypass.value?_eq sound.linked sound.ordered collapses.done value)

/-- An inserted discard changes no content. -/
theorem content_discarded (session : Session) (instruction : Instruction)
    (released value : ValueId) :
    (session.discarded instruction released).graph.content value =
      session.graph.content value :=
  Graph.content_eq_of_value? (by intro node; rfl) (Graph.value?_take ..)

/-- How wide a value is does not change, as far as its content does not. -/
theorem isWideValue_of_content
    (same : ∀ value, next.graph.content value = session.graph.content value) :
    next.simulation.isWideValue = session.simulation.isWideValue := by
  funext value
  exact congrArg (fun content => content.type.isWide) (same value)

/-- A deletion changes the width of no value. -/
theorem isWideValue_deleted (deletes : session.Deletes instruction id context) :
    (session.deleted instruction id).simulation.isWideValue = session.simulation.isWideValue :=
  isWideValue_of_content (content_deleted deletes)

/-- A collapse changes the width of no value. -/
theorem isWideValue_collapsed (sound : session.Sound) {source released survivor : ValueId}
    {taker : ContextId} {rewired : Graph}
    (collapses :
      session.Collapses instruction id context source released survivor taker rewired) :
    (session.collapsed instruction id rewired).simulation.isWideValue =
      session.simulation.isWideValue :=
  isWideValue_of_content (content_collapsed sound collapses)

/-- An inserted discard changes the width of no value. -/
theorem isWideValue_discarded (session : Session) (instruction : Instruction)
    (released : ValueId) :
    (session.discarded instruction released).simulation.isWideValue =
      session.simulation.isWideValue :=
  isWideValue_of_content (content_discarded session instruction released)

end Session

end ClassTrim
