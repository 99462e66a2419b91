import ClassTrim.Proofs.Provenance.Ownership

/-!
# Editing a linked graph

After a run a graph is edited in three ways only: a context that nobody depends on is
detached, a duplication is taken out from between its source and the taker of one copy,
and a value without a taker gets one. Each keeps the graph linked, although the second
is made of two edits between which it is not: for a moment the source has two takers.

Values are older than what is made of them. This keeps the source and the copies of a
duplication apart.
-/

namespace ClassTrim.Graph

/-- What a context pops is older than what it pushes. -/
def Ordered (graph : Graph) : Prop :=
  ∀ {id : ContextId} {context : Context}, graph.context? id = some context →
    ∀ popped ∈ context.pops, ∀ pushed ∈ context.pushes, popped < pushed

/-- One value stands in the place of another. -/
def rename (old new value : ValueId) : ValueId :=
  if value = old then new else value

/-- Only the replaced value is renamed. -/
theorem rename_of_ne {old new value : ValueId} (distinct : value ≠ old) :
    rename old new value = value := if_neg distinct

/-- Values among which the replaced one is not stay as they are. -/
theorem map_rename_of_not_mem {old new : ValueId} {values : List ValueId} (absent : old ∉ values) :
    values.map (rename old new) = values := by
  have same : values.map (rename old new) = values.map id := by
    apply List.map_congr_left
    intro value member
    exact rename_of_ne fun isOld => absent (isOld ▸ member)
  rw [same, List.map_id]

/-- What stands in a renamed list is the new value, or stood there before. -/
theorem eq_or_mem_of_mem_map_rename {old new value : ValueId} {values : List ValueId}
    (member : value ∈ values.map (rename old new)) : value = new ∨ value ∈ values := by
  obtain ⟨earlier, listed, rfl⟩ := List.mem_map.mp member
  by_cases isOld : earlier = old
  · exact .inl (if_pos isOld)
  · rw [rename_of_ne isOld]
    exact .inr listed

/-- What does not tell the two values apart does not notice a renaming. -/
theorem map_map_rename {α : Type} {old new : ValueId} {view : ValueId → α}
    (alike : view old = view new) (values : List ValueId) :
    (values.map (rename old new)).map view = values.map view := by
  rw [List.map_map]
  apply List.map_congr_left
  intro value _
  by_cases isOld : value = old
  · simp [rename, isOld, alike]
  · simp [rename, isOld]

/-- Among distinct values the first occurrence is the only one. -/
theorem replaceFirst_eq_map {old new : ValueId} {values : List ValueId}
    (distinct : values.Nodup) : replaceFirst old new values = values.map (rename old new) := by
  induction values with
  | nil => rfl
  | cons value rest ih =>
    obtain ⟨fresh, distinct⟩ := List.nodup_cons.mp distinct
    simp only [replaceFirst, List.map_cons]
    by_cases same : value = old
    · subst same
      rw [if_pos rfl, map_rename_of_not_mem fresh, rename, if_pos rfl]
    · rw [if_neg same, ih distinct, rename_of_ne same]

section Detach

variable {graph : Graph} {id : ContextId} {context : Context}

/-- A context after a detachment is the detached one, now dead, or another one as it was. -/
theorem context?_detach_cases {other : ContextId} {entry : Context}
    (found : graph.context? id = some context)
    (looked : (graph.detach id).context? other = some entry) :
    (other = id ∧ entry = { context with live := false }) ∨
      (other ≠ id ∧ graph.context? other = some entry) :=
  cases_of_change (context?_detach graph id) found looked

/-- A context whose values nobody takes may go. -/
theorem Linked.detach (linked : graph.Linked) (found : graph.context? id = some context)
    (untaken : ∀ value ∈ context.pushes, graph.liveConsumers value = []) :
    (graph.detach id).Linked := by
  have kept : ∀ {other entry}, graph.context? other = some entry → other ≠ id →
      (graph.detach id).context? other = some entry := by
    intro other entry looked distinct
    rw [context?_detach, if_neg (Ne.symm distinct), looked]
  refine ⟨?_, ?_, ?_, ?_, ?_, ?_⟩
  · intro other entry value looked member
    have old : ∃ node, graph.value? value = some node ∧ node.pushedBy = other := by
      rcases context?_detach_cases found looked with ⟨rfl, rfl⟩ | ⟨_, looked⟩
      · exact linked.pushed found member
      · exact linked.pushed looked member
    obtain ⟨node, present, producer⟩ := old
    refine ⟨_, by rw [value?_detach graph id context found, present, Option.map_some], ?_⟩
    exact producer
  · intro value node present
    rw [value?_detach graph id context found, Option.map_eq_some_iff] at present
    obtain ⟨old, present, rfl⟩ := present
    obtain ⟨producer, looked, member, same⟩ := linked.produced present
    by_cases isHere : old.pushedBy = id
    · have listed : value ∈ context.pushes := (linked.mem_pushes_iff found present).mpr isHere
      refine ⟨{ context with live := false }, ?_, listed, by simp [listed]⟩
      simp [context?_detach, isHere, found]
    · have unlisted : value ∉ context.pushes := fun listed =>
        isHere ((linked.mem_pushes_iff found present).mp listed)
      exact ⟨producer, kept looked isHere, member, by simp [unlisted, same]⟩
  · intro other entry value looked live member
    rcases context?_detach_cases found looked with ⟨rfl, rfl⟩ | ⟨distinct, looked⟩
    · cases live
    · obtain ⟨node, present, alive, only⟩ := linked.popped looked live member
      have unlisted : value ∉ context.pushes := fun listed =>
        linked.not_mem_pops_of_idle (untaken value listed) looked live member
      have forgets : (if value ∈ context.pops then node.poppedBy.filter (· ≠ id)
          else node.poppedBy) = [other] := by
        rw [only]
        simp [distinct]
      have looked := value?_detach graph id context found value
      rw [present, Option.map_some] at looked
      refine ⟨_, looked, ?_, forgets⟩
      simp [alive, unlisted]
  · intro value node consumer present member
    rw [value?_detach graph id context found, Option.map_eq_some_iff] at present
    obtain ⟨old, present, rfl⟩ := present
    have before : consumer ∈ old.poppedBy := by
      simp only at member
      split at member
      · exact (List.mem_filter.mp member).1
      · exact member
    obtain ⟨entry, looked, live, pops⟩ := linked.consumed present before
    have distinct : consumer ≠ id := by
      intro same
      subst same
      rw [found, Option.some.injEq] at looked
      subst looked
      simp [pops] at member
    exact ⟨entry, kept looked distinct, live, pops⟩
  · intro other entry looked live
    rcases context?_detach_cases found looked with ⟨rfl, rfl⟩ | ⟨_, looked⟩
    · cases live
    · exact linked.popsDistinct looked live
  · intro other entry looked
    rcases context?_detach_cases found looked with ⟨rfl, rfl⟩ | ⟨_, looked⟩
    · have distinct := linked.pushesDistinct found
      exact distinct
    · exact linked.pushesDistinct looked

/-- A detachment keeps the order of pops before pushes. -/
theorem Ordered.detach (ordered : graph.Ordered) (found : graph.context? id = some context) :
    (graph.detach id).Ordered := by
  intro other entry looked
  rcases context?_detach_cases found looked with ⟨rfl, rfl⟩ | ⟨_, looked⟩
  · have older := ordered found
    exact older
  · exact ordered looked

/-- A detachment gives no instruction a second context. -/
theorem Single.detach (single : graph.Single) (found : graph.context? id = some context) :
    (graph.detach id).Single := by
  have before : ∀ {other entry}, (graph.detach id).context? other = some entry →
      ∃ old, graph.context? other = some old ∧ old.instruction = entry.instruction := by
    intro other entry looked
    rcases context?_detach_cases found looked with ⟨rfl, rfl⟩ | ⟨_, looked⟩
    · exact ⟨context, found, rfl⟩
    · exact ⟨entry, looked, rfl⟩
  intro first second left right atFirst atSecond same
  obtain ⟨oldLeft, atFirst, leftSame⟩ := before atFirst
  obtain ⟨oldRight, atSecond, rightSame⟩ := before atSecond
  exact single atFirst atSecond (leftSame.trans (same.trans rightSame.symm))

end Detach

/-- A duplication of which one copy is idle and the other has a taker: the taker can
do with the duplicated value itself. -/
structure Bypass (graph : Graph) (id : ContextId) (context : Context)
    (source released survivor : ValueId) (taker : ContextId) : Prop where
  found : graph.context? id = some context
  live : context.live = true
  pops : context.pops = [source]
  pushes : context.pushes = [released, survivor] ∨ context.pushes = [survivor, released]
  idle : graph.liveConsumers released = []
  taken : graph.liveConsumers survivor = [taker]

namespace Bypass

variable {graph rewired : Graph} {id taker : ContextId} {context : Context}
  {source released survivor : ValueId}

/-- The duplication pushed the idle copy and the one with a taker, and nothing else. -/
theorem mem_pushes (bypass : graph.Bypass id context source released survivor taker)
    {value : ValueId} : value ∈ context.pushes ↔ value = released ∨ value = survivor := by
  rcases bypass.pushes with first | second
  · simp [first]
  · simp [second, or_comm]

/-- The duplicated value is older than the copy that is taken. -/
theorem source_lt_survivor (bypass : graph.Bypass id context source released survivor taker)
    (ordered : graph.Ordered) : source < survivor :=
  ordered bypass.found source (by simp [bypass.pops]) survivor (bypass.mem_pushes.mpr (.inr rfl))

/-- The duplicated value is none of the copies. -/
theorem source_not_mem_pushes (bypass : graph.Bypass id context source released survivor taker)
    (ordered : graph.Ordered) : source ∉ context.pushes := fun member =>
  Nat.lt_irrefl _ (ordered bypass.found source (by simp [bypass.pops]) source member)

/-- The surviving copy is popped by its taker alone. -/
theorem survivor_node (bypass : graph.Bypass id context source released survivor taker)
    (linked : graph.Linked) :
    ∃ node, graph.value? survivor = some node ∧ node.poppedBy = [taker] := by
  obtain ⟨node, present, _⟩ :=
    linked.pushed bypass.found (bypass.mem_pushes.mpr (.inr rfl))
  have taken := bypass.taken
  rw [linked.liveConsumers_eq present] at taken
  exact ⟨node, present, taken⟩

/-- The duplicated value is popped by the duplication alone. -/
theorem source_node (bypass : graph.Bypass id context source released survivor taker)
    (linked : graph.Linked) :
    ∃ node, graph.value? source = some node ∧ node.live = true ∧ node.poppedBy = [id] :=
  linked.popped bypass.found bypass.live (by simp [bypass.pops])

/-- The copy that is not idle is popped in a live context. -/
theorem taker_context (bypass : graph.Bypass id context source released survivor taker)
    (linked : graph.Linked) :
    ∃ entry, graph.context? taker = some entry ∧ entry.live = true ∧ survivor ∈ entry.pops := by
  obtain ⟨node, present, only⟩ := bypass.survivor_node linked
  exact linked.consumed present (by simp [only])

/-- A duplication does not take its own copies. -/
theorem taker_ne (bypass : graph.Bypass id context source released survivor taker)
    (linked : graph.Linked) (ordered : graph.Ordered) : taker ≠ id := by
  intro same
  obtain ⟨entry, looked, _, pops⟩ := bypass.taker_context linked
  rw [same, bypass.found, Option.some.injEq] at looked
  rw [← looked, bypass.pops, List.mem_singleton] at pops
  exact Nat.ne_of_gt (bypass.source_lt_survivor ordered) pops

/-- Of the live contexts only the taker pops the surviving copy. -/
theorem survivor_not_mem_pops (bypass : graph.Bypass id context source released survivor taker)
    (linked : graph.Linked) {other : ContextId} {entry : Context}
    (looked : graph.context? other = some entry) (live : entry.live = true)
    (distinct : other ≠ taker) : survivor ∉ entry.pops := by
  intro member
  obtain ⟨takerEntry, found, takerLive, pops⟩ := bypass.taker_context linked
  exact distinct (linked.eq_of_mem_pops looked found live takerLive member pops)

/-- Of the live contexts only the duplication pops the duplicated value. -/
theorem source_not_mem_pops (bypass : graph.Bypass id context source released survivor taker)
    (linked : graph.Linked) {other : ContextId} {entry : Context}
    (looked : graph.context? other = some entry) (live : entry.live = true)
    (distinct : other ≠ id) : source ∉ entry.pops := by
  intro member
  have own : source ∈ context.pops := by simp [bypass.pops]
  exact distinct (linked.eq_of_mem_pops looked bypass.found live bypass.live member own)

/-- The taker can be made to pop the duplicated value. -/
theorem exists_substitute (bypass : graph.Bypass id context source released survivor taker)
    (linked : graph.Linked) : ∃ rewired, graph.substitute taker survivor source = .ok rewired := by
  obtain ⟨entry, looked, _, pops⟩ := bypass.taker_context linked
  simp [substitute, popsIn_eq looked, pops]

/-- After the bypass the duplication is dead, live contexts pop the duplicated value in
the place of the surviving copy, and nothing else has changed about contexts. -/
theorem context?_eq (bypass : graph.Bypass id context source released survivor taker)
    (linked : graph.Linked) (ordered : graph.Ordered)
    (done : graph.substitute taker survivor source = .ok rewired) (other : ContextId) :
    (rewired.detach id).context? other =
      if other = id then some { context with live := false }
      else (graph.context? other).map fun entry =>
        { entry with
          pops := if entry.live then entry.pops.map (rename survivor source) else entry.pops } := by
  have apart := bypass.taker_ne linked ordered
  rw [context?_detach, context?_substitute done]
  by_cases isHere : id = other
  · subst isHere
    simp [apart, bypass.found]
  · rw [if_neg isHere, if_neg (Ne.symm isHere)]
    obtain ⟨entry, looked, live, _⟩ := bypass.taker_context linked
    by_cases isTaker : taker = other
    · subst isTaker
      rw [if_pos rfl, looked]
      simp [live, replaceFirst_eq_map (linked.popsDistinct looked live)]
    · rw [if_neg isTaker]
      cases looked : graph.context? other with
      | none => rfl
      | some entry =>
        by_cases live : entry.live = true
        · have absent := bypass.survivor_not_mem_pops linked looked live (Ne.symm isTaker)
          simp [map_rename_of_not_mem absent]
        · rw [Option.map_some, if_neg live]

/-- After the bypass the copies are dead, and the taker of the surviving one has become
the taker of the duplicated value. -/
theorem value?_eq (bypass : graph.Bypass id context source released survivor taker)
    (linked : graph.Linked) (ordered : graph.Ordered)
    (done : graph.substitute taker survivor source = .ok rewired) (value : ValueId) :
    (rewired.detach id).value? value =
      (graph.value? value).map fun node =>
        { node with
          live := node.live && decide (value ∉ context.pushes)
          poppedBy :=
            if value = survivor then []
            else if value = source then [taker] else node.poppedBy } := by
  have apart := bypass.taker_ne linked ordered
  have older := bypass.source_lt_survivor ordered
  have distinct : survivor ≠ source := Nat.ne_of_gt older
  have still : rewired.context? id = some context := by
    rw [context?_substitute done, if_neg apart, bypass.found]
  rw [value?_detach rewired id context still, value?_substitute done distinct, Option.map_map]
  cases present : graph.value? value with
  | none => rfl
  | some node =>
    simp only [Option.map_some, Function.comp_apply, bypass.pops, List.mem_singleton]
    by_cases isSurvivor : value = survivor
    · subst isSurvivor
      obtain ⟨node', present', only⟩ := bypass.survivor_node linked
      rw [present, Option.some.injEq] at present'
      simp [distinct, present', only]
    · by_cases isSource : value = source
      · subst isSource
        obtain ⟨node', present', _, only⟩ := bypass.source_node linked
        rw [present, Option.some.injEq] at present'
        simp [isSurvivor, present', only, apart]
      · simp [isSurvivor, isSource]

/-- A context after the bypass is the duplication, now dead, or another one, which pops the
duplicated value in the place of its copy if it is live. -/
theorem context?_cases (bypass : graph.Bypass id context source released survivor taker)
    (linked : graph.Linked) (ordered : graph.Ordered)
    (done : graph.substitute taker survivor source = .ok rewired) {other : ContextId}
    {entry : Context} (looked : (rewired.detach id).context? other = some entry) :
    (other = id ∧ entry = { context with live := false }) ∨
      (other ≠ id ∧ ∃ old, graph.context? other = some old ∧ entry =
        { old with
          pops := if old.live then old.pops.map (rename survivor source) else old.pops }) := by
  rw [bypass.context?_eq linked ordered done] at looked
  split at looked
  · next isHere => exact .inl ⟨isHere, (Option.some.inj looked).symm⟩
  · next apart =>
    obtain ⟨old, present, same⟩ := Option.map_eq_some_iff.mp looked
    exact .inr ⟨apart, old, present, same.symm⟩

/-- Every live context but the duplication stays, with the duplicated value in the place
of the surviving copy. -/
theorem context?_of_live (bypass : graph.Bypass id context source released survivor taker)
    (linked : graph.Linked) (ordered : graph.Ordered)
    (done : graph.substitute taker survivor source = .ok rewired) {other : ContextId}
    {entry : Context} (looked : graph.context? other = some entry) (live : entry.live = true)
    (distinct : other ≠ id) :
    (rewired.detach id).context? other =
      some { entry with pops := entry.pops.map (rename survivor source) } := by
  rw [bypass.context?_eq linked ordered done, if_neg distinct, looked, Option.map_some, if_pos live]

/-- A live context that is left is an old one, with the duplicated value in the place of
the surviving copy. -/
theorem exists_of_live (bypass : graph.Bypass id context source released survivor taker)
    (linked : graph.Linked) (ordered : graph.Ordered)
    (done : graph.substitute taker survivor source = .ok rewired) {other : ContextId}
    {entry : Context} (looked : (rewired.detach id).context? other = some entry)
    (live : entry.live = true) :
    other ≠ id ∧ ∃ old, graph.context? other = some old ∧ old.live = true ∧
      entry = { old with pops := old.pops.map (rename survivor source) } := by
  rcases bypass.context?_cases linked ordered done looked with
    ⟨_, rfl⟩ | ⟨distinct, old, present, rfl⟩
  · cases live
  · have wasLive : old.live = true := live
    exact ⟨distinct, old, present, wasLive, by simp [wasLive]⟩

/-- The live contexts that are left pop live values, each popped by nobody else. -/
theorem popped (bypass : graph.Bypass id context source released survivor taker)
    (linked : graph.Linked) (ordered : graph.Ordered)
    (done : graph.substitute taker survivor source = .ok rewired) {other : ContextId}
    {entry : Context} {value : ValueId}
    (looked : (rewired.detach id).context? other = some entry) (live : entry.live = true)
    (member : value ∈ entry.pops) :
    ∃ node, (rewired.detach id).value? value = some node ∧ node.live = true ∧
      node.poppedBy = [other] := by
  have older := bypass.source_lt_survivor ordered
  obtain ⟨distinct, before, present, wasLive, rfl⟩ :=
    bypass.exists_of_live linked ordered done looked live
  obtain ⟨old, popped, renamed⟩ := List.mem_map.mp member
  by_cases isSurvivor : old = survivor
  · -- Only the taker pops the surviving copy, and now it pops the duplicated value.
    have isTaker : other = taker := by
      apply Classical.byContradiction
      intro different
      exact bypass.survivor_not_mem_pops linked present wasLive different (isSurvivor ▸ popped)
    have isSource : value = source := by
      rw [← renamed, rename, if_pos isSurvivor]
    obtain ⟨node, found, alive, _⟩ := bypass.source_node linked
    rw [isSource]
    refine ⟨_, by rw [bypass.value?_eq linked ordered done, found, Option.map_some], ?_, ?_⟩
    · simp [alive, bypass.source_not_mem_pushes ordered]
    · simp [Nat.ne_of_lt older, isTaker]
  · rw [rename_of_ne isSurvivor] at renamed
    subst renamed
    obtain ⟨node, found, alive, only⟩ := linked.popped present wasLive popped
    have notSource : old ≠ source := by
      intro isSource
      exact bypass.source_not_mem_pops linked present wasLive distinct (isSource ▸ popped)
    have unlisted : old ∉ context.pushes := by
      intro listed
      rcases bypass.mem_pushes.mp listed with isReleased | same
      · exact linked.not_mem_pops_of_idle bypass.idle present wasLive (isReleased ▸ popped)
      · exact isSurvivor same
    refine ⟨_, by rw [bypass.value?_eq linked ordered done, found, Option.map_some], ?_, ?_⟩
    · simp [alive, unlisted]
    · simp [isSurvivor, notSource, only]

/-- Whoever is said to pop a value afterwards is live and does pop it. -/
theorem consumed (bypass : graph.Bypass id context source released survivor taker)
    (linked : graph.Linked) (ordered : graph.Ordered)
    (done : graph.substitute taker survivor source = .ok rewired) {consumer : ContextId}
    {value : ValueId} {node : ValueNode} (found : (rewired.detach id).value? value = some node)
    (member : consumer ∈ node.poppedBy) :
    ∃ entry, (rewired.detach id).context? consumer = some entry ∧ entry.live = true ∧
      value ∈ entry.pops := by
  rw [bypass.value?_eq linked ordered done, Option.map_eq_some_iff] at found
  obtain ⟨old, found, rfl⟩ := found
  by_cases isSurvivor : value = survivor
  · simp [isSurvivor] at member
  · by_cases isSource : value = source
    · have isTaker : consumer = taker := by
        rw [if_neg isSurvivor, if_pos isSource] at member
        exact List.mem_singleton.mp member
      obtain ⟨entry, looked, live, pops⟩ := bypass.taker_context linked
      have kept := bypass.context?_of_live linked ordered done looked live
        (bypass.taker_ne linked ordered)
      rw [isTaker, isSource]
      refine ⟨_, kept, live, List.mem_map.mpr ⟨survivor, pops, ?_⟩⟩
      rw [rename, if_pos rfl]
    · rw [if_neg isSurvivor, if_neg isSource] at member
      obtain ⟨entry, looked, live, pops⟩ := linked.consumed found member
      have distinct : consumer ≠ id := by
        intro same
        rw [same, bypass.found, Option.some.injEq] at looked
        rw [← looked, bypass.pops, List.mem_singleton] at pops
        exact isSource pops
      have kept := bypass.context?_of_live linked ordered done looked live distinct
      exact ⟨_, kept, live, List.mem_map.mpr ⟨value, pops, rename_of_ne isSurvivor⟩⟩

/-- No context pops the duplicated value twice. -/
theorem popsDistinct (bypass : graph.Bypass id context source released survivor taker)
    (linked : graph.Linked) (ordered : graph.Ordered)
    (done : graph.substitute taker survivor source = .ok rewired) {other : ContextId}
    {entry : Context} (looked : (rewired.detach id).context? other = some entry)
    (live : entry.live = true) : entry.pops.Nodup := by
  obtain ⟨distinct, old, present, wasLive, rfl⟩ :=
    bypass.exists_of_live linked ordered done looked live
  have free := bypass.source_not_mem_pops linked present wasLive distinct
  refine List.Pairwise.map _ ?_ (List.Pairwise.and_mem.mp (linked.popsDistinct present wasLive))
  rintro first second ⟨firstMember, secondMember, different⟩
  simp only [rename]
  split <;> split
  · next left right => exact fun _ => different (left.trans right.symm)
  · exact fun same => free (same ▸ secondMember)
  · exact fun same => free (same ▸ firstMember)
  · exact different

/-- A bypass keeps the graph linked. -/
theorem linked (bypass : graph.Bypass id context source released survivor taker)
    (linked : graph.Linked) (ordered : graph.Ordered)
    (done : graph.substitute taker survivor source = .ok rewired) :
    (rewired.detach id).Linked where
  pushed := by
    intro other entry value looked member
    have old : ∃ node, graph.value? value = some node ∧ node.pushedBy = other := by
      rcases bypass.context?_cases linked ordered done looked with
        ⟨rfl, rfl⟩ | ⟨_, before, present, rfl⟩
      · exact linked.pushed bypass.found member
      · exact linked.pushed present member
    obtain ⟨node, present, producer⟩ := old
    refine ⟨_, by rw [bypass.value?_eq linked ordered done, present, Option.map_some], ?_⟩
    exact producer
  produced := by
    intro value node present
    rw [bypass.value?_eq linked ordered done, Option.map_eq_some_iff] at present
    obtain ⟨old, present, rfl⟩ := present
    obtain ⟨producer, looked, member, same⟩ := linked.produced present
    by_cases isHere : old.pushedBy = id
    · rw [isHere, bypass.found, Option.some.injEq] at looked
      subst looked
      refine ⟨{ context with live := false }, ?_, member, by simp [member]⟩
      simp [bypass.context?_eq linked ordered done, isHere]
    · have absent : value ∉ context.pushes := by
        intro listed
        obtain ⟨node, present', producer⟩ := linked.pushed bypass.found listed
        rw [present, Option.some.injEq] at present'
        exact isHere (present' ▸ producer)
      have kept : (rewired.detach id).context? old.pushedBy = some { producer with
          pops := if producer.live then producer.pops.map (rename survivor source)
            else producer.pops } := by
        rw [bypass.context?_eq linked ordered done, if_neg isHere, looked, Option.map_some]
      exact ⟨_, kept, member, by simp [absent, same]⟩
  popped := bypass.popped linked ordered done
  consumed := bypass.consumed linked ordered done
  popsDistinct := bypass.popsDistinct linked ordered done
  pushesDistinct := by
    intro other entry looked
    rcases bypass.context?_cases linked ordered done looked with
      ⟨rfl, rfl⟩ | ⟨_, before, present, rfl⟩
    · have distinct := linked.pushesDistinct bypass.found
      exact distinct
    · have distinct := linked.pushesDistinct present
      exact distinct

/-- The duplicated value is older than the copy whose place it takes. -/
theorem ordered (bypass : graph.Bypass id context source released survivor taker)
    (linked : graph.Linked) (ordered : graph.Ordered)
    (done : graph.substitute taker survivor source = .ok rewired) :
    (rewired.detach id).Ordered := by
  have older := bypass.source_lt_survivor ordered
  intro other entry looked
  rcases bypass.context?_cases linked ordered done looked with
    ⟨rfl, rfl⟩ | ⟨_, before, present, rfl⟩
  · have before := ordered bypass.found
    exact before
  · intro popped member pushed listed
    have wasOlder := ordered present
    by_cases live : before.live = true
    · rw [if_pos live] at member
      obtain ⟨old, oldMember, rfl⟩ := List.mem_map.mp member
      have less := wasOlder old oldMember pushed listed
      simp only [rename]
      split
      · next isSurvivor => exact Nat.lt_trans older (isSurvivor ▸ less)
      · exact less
    · rw [if_neg live] at member
      exact wasOlder popped member pushed listed

/-- A bypass leaves every context with its instruction. -/
theorem single (bypass : graph.Bypass id context source released survivor taker)
    (linked : graph.Linked) (ordered : graph.Ordered) (single : graph.Single)
    (done : graph.substitute taker survivor source = .ok rewired) :
    (rewired.detach id).Single := by
  have before : ∀ {other entry}, (rewired.detach id).context? other = some entry →
      ∃ old, graph.context? other = some old ∧ old.instruction = entry.instruction := by
    intro other entry looked
    rcases bypass.context?_cases linked ordered done looked with
      ⟨rfl, rfl⟩ | ⟨_, old, present, rfl⟩
    · exact ⟨context, bypass.found, rfl⟩
    · exact ⟨old, present, rfl⟩
  intro first second left right atFirst atSecond same
  obtain ⟨oldLeft, atFirst, leftSame⟩ := before atFirst
  obtain ⟨oldRight, atSecond, rightSame⟩ := before atSecond
  exact single atFirst atSecond (leftSame.trans (same.trans rightSame.symm))

end Bypass

section Take

variable {graph : Graph}

/-- The graph in which a new context of an instruction takes a value. -/
def take (graph : Graph) (instruction : Instruction) (frame : Nat) (value : ValueId) : Graph :=
  (graph.openContext instruction frame).recordPop graph.contexts.size value

/-- The new context pops the value alone; all others are as they were. -/
theorem context?_take (instruction : Instruction) (frame : Nat) (value : ValueId)
    (other : ContextId) :
    (graph.take instruction frame value).context? other =
      if other = graph.contexts.size then
        some { Context.opened instruction frame with pops := [value] }
      else graph.context? other := by
  rw [take, context?_recordPop, context?_openContext]
  by_cases isNew : other = graph.contexts.size
  · simp [isNew, Context.opened]
  · simp [isNew, Ne.symm isNew]

/-- A context is the new one or one that was there before. -/
theorem context?_take_cases {instruction : Instruction} {frame : Nat} {value : ValueId}
    {other : ContextId} {entry : Context}
    (looked : (graph.take instruction frame value).context? other = some entry) :
    entry = { Context.opened instruction frame with pops := [value] } ∨
      graph.context? other = some entry := by
  rw [context?_take] at looked
  split at looked
  · exact .inl (Option.some.inj looked).symm
  · exact .inr looked

/-- Old contexts stay when a value is taken. -/
theorem context?_take_of_some {instruction : Instruction} {frame : Nat} {value : ValueId}
    {other : ContextId} {entry : Context} (looked : graph.context? other = some entry) :
    (graph.take instruction frame value).context? other = some entry := by
  rw [context?_take, if_neg (Nat.ne_of_lt (lt_of_context? looked)), looked]

/-- Only the value that is taken gets a new consumer. -/
theorem value?_take (instruction : Instruction) (frame : Nat) (value other : ValueId) :
    (graph.take instruction frame value).value? other =
      (graph.value? other).map fun node =>
        { node with
          poppedBy :=
            if other = value then node.poppedBy ++ [graph.contexts.size] else node.poppedBy } := by
  rw [take, value?_recordPop, value?_openContext]
  by_cases same : value = other
  · simp [same]
  · cases graph.value? other <;> simp [same, Ne.symm same]

/-- A live value that nobody pops may be taken. -/
theorem Linked.take (linked : graph.Linked) {value : ValueId} {node : ValueNode}
    (found : graph.value? value = some node) (alive : node.live = true)
    (free : node.poppedBy = []) (instruction : Instruction) (frame : Nat) :
    (graph.take instruction frame value).Linked :=
  (linked.openContext instruction frame).recordPop (context?_openContext_size graph _ _) rfl found
    alive free

/-- A context that only pops keeps the order. -/
theorem Ordered.take (ordered : graph.Ordered) (instruction : Instruction) (frame : Nat)
    (value : ValueId) : (graph.take instruction frame value).Ordered := by
  intro other entry looked
  rcases context?_take_cases looked with rfl | looked
  · intro popped _ pushed listed
    cases listed
  · exact ordered looked

/-- An instruction that has no context yet may get one. -/
theorem Single.take (single : graph.Single) {instruction : Instruction} (frame : Nat)
    (value : ValueId)
    (new : ∀ {other entry}, graph.context? other = some entry →
      entry.instruction ≠ instruction.id) : (graph.take instruction frame value).Single := by
  intro first second left right atFirst atSecond same
  rw [context?_take] at atFirst atSecond
  split at atFirst <;> split at atSecond
  · next isNew alsoNew => rw [isNew, alsoNew]
  · cases atFirst
    exact absurd same.symm (new atSecond)
  · cases atSecond
    exact absurd same (new atFirst)
  · exact single atFirst atSecond same

end Take

end ClassTrim.Graph
