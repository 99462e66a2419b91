import Mathlib.Data.List.Forall2
import ClassTrim.Proofs.Provenance.Copies
import ClassTrim.Proofs.Provenance.Edit

/-!
# Where copies come from

A value that a duplication pushed is a copy of the value that the duplication popped, which may be
a copy in its turn. `Descends` follows the duplications back to a value that is not a copy. In a
traceable graph what a context pops is older than what it pushes. So the way back ends, it ends
before the steps that `origin` allows are used up, and what it ends at is the only solution of one
equation: the origin of a copy is the origin of what was copied, and all else is its own origin.

Edits after a run rewrite what contexts pop. They let a context pop, in the place of a value, an
older one of the same origin. The equation does not notice this, so origins stay what they were,
also for values that are dead and across duplications that are gone.
-/

namespace ClassTrim.Graph

/-- Following duplications back from one value leads to another that no duplication made. -/
inductive Descends (graph : Graph) : ValueId → ValueId → Prop
  | made {value : ValueId} {context : Context} (producer : graph.producer? value = some context)
      (original : context.duplication = false) : Descends graph value value
  | copied {value source last : ValueId} {context : Context}
      (producer : graph.producer? value = some context) (copying : context.duplication = true)
      (popped : context.pops.head? = some source) (rest : Descends graph source last) :
      Descends graph value last

/-- The way back has one end. -/
theorem Descends.unique {graph : Graph} {value first second : ValueId}
    (left : graph.Descends value first) (right : graph.Descends value second) :
    first = second := by
  induction left with
  | made producer original =>
    cases right with
    | made => rfl
    | copied again copying =>
      cases producer.symm.trans again
      cases original.symm.trans copying
  | copied producer copying popped _ ih =>
    cases right with
    | made again original =>
      cases producer.symm.trans again
      cases original.symm.trans copying
    | copied again _ poppedAgain rest =>
      cases producer.symm.trans again
      cases popped.symm.trans poppedAgain
      exact ih rest

/-- What following copies back relies on. -/
structure Traceable (graph : Graph) : Prop where
  /-- A value names the context that lists it among its pushes. -/
  pushed : ∀ {id context value}, graph.context? id = some context → value ∈ context.pushes →
    ∃ node, graph.value? value = some node ∧ node.pushedBy = id
  /-- A value is among the pushes of the context that it names. -/
  produced : ∀ {value node}, graph.value? value = some node →
    ∃ context, graph.context? node.pushedBy = some context ∧ value ∈ context.pushes
  ordered : graph.Ordered
  /-- What pushes copies has popped something to copy. -/
  copying : ∀ {id context}, graph.context? id = some context → context.duplication = true →
    context.pushes ≠ [] → context.pops ≠ []
  /-- Only duplications push more than one value. -/
  pairing : ∀ {id context}, graph.context? id = some context → 2 ≤ context.pushes.length →
    context.duplication = true

variable {graph : Graph}

/-- A copy comes from the first value that its duplication popped. -/
theorem source?_eq_head? {value : ValueId} {context : Context}
    (producer : graph.producer? value = some context) (copying : context.duplication = true) :
    graph.source? value = context.pops.head? := by
  simp [source?, producer, copying]

/-- What no duplication pushed comes from nowhere else. -/
theorem source?_eq_none {value : ValueId} {context : Context}
    (producer : graph.producer? value = some context) (original : context.duplication = false) :
    graph.source? value = none := by
  simp [source?, producer, original]

/-- Following copies back ends at once where nothing was copied. -/
theorem originWithin_of_source?_none {value : ValueId} (final : graph.source? value = none)
    (steps : Nat) : graph.originWithin steps value = value := by
  cases steps with
  | zero => rfl
  | succ steps => simp [originWithin, final]

namespace Traceable

/-- Nothing recorded, nothing to follow. -/
theorem empty : Graph.empty.Traceable := by
  constructor <;> simp [Graph.empty, Ordered, context?, value?]

/-- Every value has a producer, the context that it names. -/
theorem exists_producer (traceable : graph.Traceable) {value : ValueId} {node : ValueNode}
    (found : graph.value? value = some node) :
    ∃ context, graph.producer? value = some context ∧ value ∈ context.pushes ∧
      graph.context? node.pushedBy = some context := by
  obtain ⟨context, entered, member⟩ := traceable.produced found
  exact ⟨context, by simp [producer?, found, entered], member, entered⟩

/-- A copy is younger than what it is a copy of. -/
theorem lt_of_source? (traceable : graph.Traceable) {value source : ValueId}
    (copy : graph.source? value = some source) : source < value := by
  cases found : graph.value? value with
  | none => simp [source?, producer?, found] at copy
  | some node =>
    obtain ⟨context, producer, member, entered⟩ := traceable.exists_producer found
    cases copying : context.duplication with
    | false => simp [source?_eq_none producer copying] at copy
    | true =>
      rw [source?_eq_head? producer copying] at copy
      exact traceable.ordered entered source (List.mem_of_head? copy) value member

/-- More steps than there are older values do not lead further. -/
theorem originWithin_eq (traceable : graph.Traceable) {value : ValueId} {first second : Nat}
    (enough : value < first) (also : value < second) :
    graph.originWithin first value = graph.originWithin second value := by
  induction first generalizing value second with
  | zero => cases enough
  | succ first ih =>
    cases second with
    | zero => cases also
    | succ second =>
      simp only [originWithin]
      cases copy : graph.source? value with
      | none => rfl
      | some source =>
        have older : source < value := traceable.lt_of_source? copy
        exact ih (Nat.lt_of_lt_of_le older (Nat.le_of_lt_succ enough))
          (Nat.lt_of_lt_of_le older (Nat.le_of_lt_succ also))

/-- A copy has the origin of what was copied, and what is not a copy is its own origin. -/
theorem origin_eq (traceable : graph.Traceable) (value : ValueId) :
    graph.origin value = ((graph.source? value).map graph.origin).getD value := by
  cases copy : graph.source? value with
  | none => exact originWithin_of_source?_none copy _
  | some source =>
    have older : source < value := traceable.lt_of_source? copy
    have inside : value < graph.values.size := by
      cases found : graph.value? value with
      | none => simp [source?, producer?, found] at copy
      | some node => exact lt_of_value? found
    calc graph.origin value
        = graph.originWithin (value + 1) value :=
          traceable.originWithin_eq inside (Nat.lt_succ_self value)
      _ = graph.originWithin value source := by simp [originWithin, copy]
      _ = graph.origin source := traceable.originWithin_eq older (Nat.lt_trans older inside)

/-- The equation of `origin_eq` has one solution. -/
theorem origin_unique (traceable : graph.Traceable) {label : ValueId → ValueId}
    (law : ∀ value, label value = ((graph.source? value).map label).getD value) :
    graph.origin = label := by
  funext value
  induction value using Nat.strongRecOn with
  | ind value ih =>
    rw [traceable.origin_eq value, law value]
    cases copy : graph.source? value with
    | none => rfl
    | some source => exact ih source (traceable.lt_of_source? copy)

/-- Every value of the graph descends from its origin. -/
theorem descends_origin (traceable : graph.Traceable) {value : ValueId} {node : ValueNode}
    (found : graph.value? value = some node) : graph.Descends value (graph.origin value) := by
  -- By induction on the age of the value: what a copy was made of is older, so it exists as well.
  induction value using Nat.strongRecOn generalizing node with
  | ind value ih =>
    obtain ⟨context, producer, member, entered⟩ := traceable.exists_producer found
    rw [traceable.origin_eq value]
    cases copying : context.duplication with
    | false =>
      rw [source?_eq_none producer copying]
      exact .made producer copying
    | true =>
      have some : context.pops ≠ [] :=
        traceable.copying entered copying (List.ne_nil_of_mem member)
      obtain ⟨source, rest, pops⟩ := List.exists_cons_of_ne_nil some
      have copy : graph.source? value = .some source := by
        rw [source?_eq_head? producer copying, pops, List.head?_cons]
      have older : source < value := traceable.lt_of_source? copy
      obtain ⟨earlier, present⟩ : ∃ earlier, graph.value? source = .some earlier :=
        ⟨_, Array.getElem?_eq_getElem (Nat.lt_trans older (lt_of_value? found))⟩
      rw [copy]
      exact .copied producer copying (by rw [pops, List.head?_cons]) (ih source older present)

/-- The origin of a value is where following duplications back leads. -/
theorem descends_iff (traceable : graph.Traceable) {value last : ValueId} {node : ValueNode}
    (found : graph.value? value = some node) :
    graph.Descends value last ↔ graph.origin value = last := by
  constructor
  · exact (traceable.descends_origin found).unique
  · rintro rfl
    exact traceable.descends_origin found

/-- An origin is its own origin. -/
theorem origin_origin (traceable : graph.Traceable) (value : ValueId) :
    graph.origin (graph.origin value) = graph.origin value := by
  induction value using Nat.strongRecOn with
  | ind value ih =>
    have law := traceable.origin_eq value
    cases copy : graph.source? value with
    | none =>
      rw [copy] at law
      exact congrArg graph.origin law
    | some source =>
      rw [copy] at law
      rw [law]
      exact ih source (traceable.lt_of_source? copy)

/-- An open context that has popped something to copy may push a value, and a duplication may push
more than one. -/
theorem recordPush (traceable : graph.Traceable) {id : ContextId} {context : Context}
    (entered : graph.context? id = some context)
    (older : ∀ value ∈ context.pops, value < graph.values.size)
    (copying : context.duplication = true → context.pops ≠ [])
    (pairing : context.pushes ≠ [] → context.duplication = true) (content : Content) :
    (graph.recordPush id content).Traceable := by
  have contexts : ∀ {other entry}, (graph.recordPush id content).context? other = some entry →
      (other = id ∧ entry = { context with pushes := context.pushes ++ [graph.values.size] }) ∨
        (other ≠ id ∧ graph.context? other = some entry) :=
    cases_of_change (fun other => context?_recordPush graph id other content) entered
  have keptValue : ∀ {value node}, graph.value? value = some node →
      (graph.recordPush id content).value? value = some node := by
    intro value node found
    rw [value?_recordPush, if_neg (Nat.ne_of_lt (lt_of_value? found)), found]
  constructor
  · intro other entry value looked member
    rcases contexts looked with ⟨rfl, rfl⟩ | ⟨_, old⟩
    · rcases List.mem_append.mp member with earlier | last
      · obtain ⟨node, found, producer⟩ := traceable.pushed entered earlier
        exact ⟨node, keptValue found, producer⟩
      · rw [List.mem_singleton.mp last]
        exact ⟨⟨content, other, [], true⟩, by simp [value?_recordPush], rfl⟩
    · obtain ⟨node, found, producer⟩ := traceable.pushed old member
      exact ⟨node, keptValue found, producer⟩
  · intro value node looked
    rw [value?_recordPush] at looked
    split at looked
    · next last =>
      cases looked
      refine ⟨{ context with pushes := context.pushes ++ [graph.values.size] }, ?_, ?_⟩
      · simp [context?_recordPush, entered]
      · simp [last]
    · obtain ⟨producer, present, member⟩ := traceable.produced looked
      obtain ⟨now, still, rfl | rfl⟩ :=
        exists_of_change (fun other => context?_recordPush graph id other content) present
      · exact ⟨now, still, member⟩
      · exact ⟨_, still, List.mem_append_left _ member⟩
  · intro other entry looked popped popMember pushed pushMember
    rcases contexts looked with ⟨rfl, rfl⟩ | ⟨_, old⟩
    · rcases List.mem_append.mp pushMember with earlier | last
      · exact traceable.ordered entered popped popMember pushed earlier
      · rw [List.mem_singleton.mp last]
        exact older popped popMember
    · exact traceable.ordered old popped popMember pushed pushMember
  · intro other entry looked copies some
    rcases contexts looked with ⟨rfl, rfl⟩ | ⟨_, old⟩
    · exact copying copies
    · exact traceable.copying old copies some
  · intro other entry looked two
    rcases contexts looked with ⟨rfl, rfl⟩ | ⟨_, old⟩
    · apply pairing
      rintro none
      simp [none] at two
    · exact traceable.pairing old two

end Traceable

/-- One value may stand in the place of another: it is not younger, and both have one origin. -/
def StandsFor (graph : Graph) (new old : ValueId) : Prop :=
  new ≤ old ∧ graph.origin new = graph.origin old

/-- Values may stand in their own places. -/
theorem forall₂_standsFor (values : List ValueId) :
    List.Forall₂ graph.StandsFor values values :=
  List.forall₂_same.mpr fun value _ => ⟨Nat.le_refl value, rfl⟩

/-- Replacing a value by one that may stand in its place keeps what all the values stand for. -/
theorem forall₂_standsFor_replaceFirst {old new : ValueId} (stands : graph.StandsFor new old)
    (values : List ValueId) :
    List.Forall₂ graph.StandsFor (replaceFirst old new values) values := by
  induction values with
  | nil => exact .nil
  | cons value rest ih =>
    simp only [replaceFirst]
    split
    · next same => exact .cons (same ▸ stands) (forall₂_standsFor rest)
    · exact .cons ⟨Nat.le_refl value, rfl⟩ ih

/-- Each of the new values stands in the place of one of the old. -/
theorem exists_standsFor_of_mem {changed values : List ValueId}
    (stand : List.Forall₂ graph.StandsFor changed values) {new : ValueId} (member : new ∈ changed) :
    ∃ old ∈ values, graph.StandsFor new old := by
  induction stand with
  | nil => cases member
  | cons first _ ih =>
    rcases List.mem_cons.mp member with rfl | later
    · exact ⟨_, List.mem_cons_self, first⟩
    · obtain ⟨old, listed, stands⟩ := ih later
      exact ⟨old, List.mem_cons_of_mem _ listed, stands⟩

/-- The first values have one origin. -/
theorem map_origin_head? {changed values : List ValueId}
    (stand : List.Forall₂ graph.StandsFor changed values) :
    changed.head?.map graph.origin = values.head?.map graph.origin := by
  cases stand with
  | nil => rfl
  | cons first _ => exact congrArg some first.2

/-- A graph becomes another in which every value has the producer that it had, and in which
whatever pushes something pops what may stand in the place of what it popped. -/
structure Alters (before after : Graph) : Prop where
  values : ∀ value, (after.value? value).map ValueNode.pushedBy =
    (before.value? value).map ValueNode.pushedBy
  kept : ∀ {id context}, before.context? id = some context →
    ∃ changed, after.context? id = some changed ∧ changed.pushes = context.pushes ∧
      changed.duplication = context.duplication ∧
      (context.pushes ≠ [] → List.Forall₂ before.StandsFor changed.pops context.pops)
  added : ∀ {id context}, before.context? id = none → after.context? id = some context →
    context.pushes = []

namespace Alters

variable {before after : Graph}

/-- What pushes something was there before. -/
theorem exists_before (alters : before.Alters after) {id : ContextId} {changed : Context}
    (entered : after.context? id = some changed) (some : changed.pushes ≠ []) :
    ∃ context, before.context? id = .some context ∧ changed.pushes = context.pushes ∧
      changed.duplication = context.duplication ∧
      List.Forall₂ before.StandsFor changed.pops context.pops := by
  cases looked : before.context? id with
  | none => exact absurd (alters.added looked entered) some
  | some context =>
    obtain ⟨same, again, pushes, duplication, pops⟩ := alters.kept looked
    cases entered.symm.trans again
    exact ⟨context, rfl, pushes, duplication, pops (pushes ▸ some)⟩

/-- Copies can be followed back after such a change if they could before. -/
theorem traceable (alters : before.Alters after) (held : before.Traceable) : after.Traceable := by
  constructor
  · intro id changed value entered member
    obtain ⟨context, looked, pushes, -, -⟩ :=
      alters.exists_before entered (List.ne_nil_of_mem member)
    obtain ⟨node, found, producer⟩ := held.pushed looked (pushes ▸ member)
    have named := alters.values value
    rw [found, Option.map_some, producer] at named
    simpa using named
  · intro value node found
    have named := alters.values value
    rw [found, Option.map_some] at named
    obtain ⟨earlier, present, producer⟩ := Option.map_eq_some_iff.mp named.symm
    obtain ⟨context, looked, member⟩ := held.produced present
    obtain ⟨changed, entered, pushes, -, -⟩ := alters.kept looked
    exact ⟨changed, producer ▸ entered, pushes ▸ member⟩
  · intro id changed entered popped popMember pushed pushMember
    obtain ⟨context, looked, pushes, -, pops⟩ :=
      alters.exists_before entered (List.ne_nil_of_mem pushMember)
    obtain ⟨old, listed, stands⟩ := exists_standsFor_of_mem pops popMember
    exact Nat.lt_of_le_of_lt stands.1 (held.ordered looked old listed pushed (pushes ▸ pushMember))
  · intro id changed entered copies some
    obtain ⟨context, looked, pushes, duplication, pops⟩ := alters.exists_before entered some
    have popsBefore := held.copying looked (duplication ▸ copies) (pushes ▸ some)
    rw [← List.length_pos_iff, pops.length_eq]
    exact List.length_pos_iff.mpr popsBefore
  · intro id changed entered two
    have some : changed.pushes ≠ [] := List.length_pos_iff.mp (by omega)
    obtain ⟨context, looked, pushes, duplication, -⟩ := alters.exists_before entered some
    rw [duplication]
    exact held.pairing looked (pushes ▸ two)

/-- A value is a copy as before, of something of the same origin. -/
theorem map_origin_source? (alters : before.Alters after) (held : before.Traceable)
    (value : ValueId) :
    (after.source? value).map before.origin = (before.source? value).map before.origin := by
  have named := alters.values value
  cases found : before.value? value with
  | none =>
    rw [found, Option.map_none, Option.map_eq_none_iff] at named
    simp [source?, producer?, found, named]
  | some node =>
    rw [found, Option.map_some, Option.map_eq_some_iff] at named
    obtain ⟨now, present, producer⟩ := named
    obtain ⟨context, made, member, looked⟩ := held.exists_producer found
    obtain ⟨changed, entered, pushes, duplication, pops⟩ := alters.kept looked
    have madeNow : after.producer? value = some changed := by
      simp [producer?, present, producer, entered]
    cases copies : context.duplication with
    | false => rw [source?_eq_none made copies, source?_eq_none madeNow (duplication.trans copies)]
    | true =>
      rw [source?_eq_head? made copies, source?_eq_head? madeNow (duplication.trans copies)]
      exact map_origin_head? (pops (List.ne_nil_of_mem member))

/-- Such a change moves no origin. -/
theorem origin_eq (alters : before.Alters after) (held : before.Traceable) :
    after.origin = before.origin := by
  -- The old origins solve the equation of the new graph, which has no other solution.
  refine (alters.traceable held).origin_unique fun value => ?_
  rw [alters.map_origin_source? held value]
  exact held.origin_eq value

end Alters

/-- A new context has pushed nothing. -/
theorem alters_openContext (graph : Graph) (instruction : Instruction) (frame : Nat) :
    graph.Alters (graph.openContext instruction frame) where
  values value := by rw [value?_openContext]
  kept := by
    intro id context looked
    refine ⟨context, ?_, rfl, rfl, fun _ => forall₂_standsFor _⟩
    rw [context?_openContext, if_neg (Nat.ne_of_lt (lt_of_context? looked)), looked]
  added := by
    intro id context missing entered
    rw [context?_openContext, missing] at entered
    split at entered
    · cases entered
      rfl
    · cases entered

/-- What has not pushed anything may pop what it likes. -/
theorem alters_recordPop {id : ContextId} {context : Context}
    (entered : graph.context? id = some context) (idle : context.pushes = []) (value : ValueId) :
    graph.Alters (graph.recordPop id value) where
  values other := by
    rw [value?_recordPop]
    split <;> simp [Function.comp_def]
  kept := by
    intro other entry looked
    rw [context?_recordPop]
    split
    · next same =>
      subst same
      cases entered.symm.trans looked
      refine ⟨{ context with pops := context.pops ++ [value] }, ?_, rfl, rfl, absurd idle⟩
      rw [looked, Option.map_some]
    · exact ⟨entry, looked, rfl, rfl, fun _ => forall₂_standsFor _⟩
  added := by
    intro other entry missing looked
    cases looked.symm.trans
      (none_of_change (fun place => context?_recordPop graph id place value) missing)

/-- A detachment leaves producers and what they popped as they were. -/
theorem alters_detach (graph : Graph) (id : ContextId) : graph.Alters (graph.detach id) where
  values value := by
    cases found : graph.context? id with
    | none => simp [detach, found]
    | some context => simp [value?_detach graph id context found, Function.comp_def]
  kept := by
    intro other entry looked
    rw [context?_detach, looked]
    split
    · exact ⟨_, rfl, rfl, rfl, fun _ => forall₂_standsFor _⟩
    · exact ⟨_, rfl, rfl, rfl, fun _ => forall₂_standsFor _⟩
  added := by
    intro other entry missing looked
    cases looked.symm.trans (none_of_change (context?_detach graph id) missing)

/-- A substitution of an older value with the same origin is such a change. -/
theorem alters_substitute {id : ContextId} {old new : ValueId} {changed : Graph}
    (older : new < old) (same : graph.origin new = graph.origin old)
    (done : graph.substitute id old new = .ok changed) : graph.Alters changed where
  values value := by
    rw [value?_substitute done (Nat.ne_of_gt older)]
    simp [Function.comp_def]
  kept := by
    intro other entry looked
    rw [context?_substitute done, looked]
    split
    · exact ⟨_, rfl, rfl, rfl, fun _ =>
        forall₂_standsFor_replaceFirst ⟨Nat.le_of_lt older, same⟩ entry.pops⟩
    · exact ⟨_, rfl, rfl, rfl, fun _ => forall₂_standsFor _⟩
  added := by
    intro other entry missing looked
    cases looked.symm.trans (none_of_change (context?_substitute done) missing)

/-- The graph can be traced, and values have the origins that a label gives them. -/
structure Labelled (label : ValueId → ValueId) (graph : Graph) : Prop where
  traceable : graph.Traceable
  origin : graph.origin = label

namespace Labelled

variable {label : ValueId → ValueId} {before after : Graph}

/-- Labels outlast such a change. -/
theorem alters (labelled : before.Labelled label) (alters : before.Alters after) :
    after.Labelled label :=
  ⟨alters.traceable labelled.traceable, (alters.origin_eq labelled.traceable).trans labelled.origin⟩

/-- Labels outlast any number of detachments. -/
theorem detachAll (labelled : before.Labelled label) (contexts : List ContextId) :
    (contexts.foldl Graph.detach before).Labelled label := by
  induction contexts generalizing before with
  | nil => exact labelled
  | cons id rest ih => exact ih (labelled.alters (alters_detach before id))

/-- A new context pushes nothing, whatever value it takes. -/
theorem take (labelled : before.Labelled label) (instruction : Instruction) (frame : Nat)
    (value : ValueId) : (before.take instruction frame value).Labelled label := by
  have opened := labelled.alters (alters_openContext before instruction frame)
  exact opened.alters (alters_recordPop (context?_openContext_size before _ _) rfl value)

/-- Whoever popped a value may pop an older one of its origin, one after the other. -/
theorem rewire (labelled : before.Labelled label) {old new : ValueId} (older : new < old)
    (same : label new = label old) {takers : List ContextId}
    (done : before.rewire old new takers = .ok after) : after.Labelled label := by
  induction takers generalizing before with
  | nil =>
    cases done
    exact labelled
  | cons taker rest ih =>
    simp only [Graph.rewire] at done
    split at done
    · cases done
    · next changed substituted =>
      have alters : before.Alters changed :=
        alters_substitute older (by rw [labelled.origin, same]) substituted
      exact ih (labelled.alters alters) done

end Labelled

/-- The value that a duplication copied is older than the other copy, and of its origin. -/
theorem Traceable.lt_and_origin_eq_of_copies (traceable : graph.Traceable)
    {duplication : Instruction} {value source other : ValueId} {id : ContextId}
    (known : graph.copies duplication value = .ok (id, source, other)) :
    source < other ∧ graph.origin source = graph.origin other := by
  obtain ⟨context, entered, popped, member, two⟩ := copies_eq_ok known
  obtain ⟨node, found, producer⟩ := traceable.pushed entered member
  have made : graph.producer? other = some context := by
    simp [producer?, found, producer, entered]
  have copying : context.duplication = true := traceable.pairing entered (Nat.le_of_eq two.symm)
  have copy : graph.source? other = some source := by
    rw [source?_eq_head? made copying, popped]
  refine ⟨traceable.lt_of_source? copy, ?_⟩
  rw [traceable.origin_eq other, copy]
  rfl

end ClassTrim.Graph
