import ClassTrim.DeadStore
import ClassTrim.Proofs.Machine.Account
import ClassTrim.Proofs.Retirement.Edits

/-!
# What a graph means to the machine

A meaning gives every value of a graph a concrete value. It is right for a session if the
graph, read through it, is an account of the body; then the behaviour of the body can be
read off the graph. Every step of a removal keeps a meaning right and the behaviour as it
was, whether or not values wait: what is deleted is not observed, the copies of a
duplication mean what the duplicated value means, and an inserted instruction only takes
a value.
-/

namespace ClassTrim

namespace DeadStore

variable {body : Body} {code : List Instruction} {instruction : Instruction}

/-- No code of a body reads a slot that the body does not read. -/
theorem not_reads {index : UInt16} (unread : index ∉ readSlots body)
    (inside : ∀ other ∈ code, other ∈ body.instructions) :
    ¬Machine.Reads code index.toNat := by
  rintro ⟨reader, member, kind, read, load, same⟩
  apply unread
  refine List.mem_filterMap.mpr ⟨reader, inside reader member, ?_⟩
  rw [load, Op.loadedIndex?, UInt16.toNat_inj.mp same]

/-- What is called dead stores to a slot that is not read, or has no side effects. -/
theorem unread_or_pure {graph : Graph} (dead : isDead body graph instruction = true) :
    (∃ kind index, instruction.op = .store kind index ∧ index ∉ readSlots body) ∨
      instruction.op.hasSideEffect = false := by
  cases op : instruction.op with
  | store kind index => exact .inl ⟨kind, index, rfl, by simpa [isDead, op] using dead⟩
  | pop | pop2 => exact .inr rfl
  | _ => simp [isDead, op] at dead

end DeadStore

namespace Session

open Machine

/-- Read through a meaning, the graph explains the body, and the body behaves as stated. -/
structure Means (session : Session) (world : World) (meaning : ValueId → Value) (slots : Slots)
    (behaviour : List Observation × Ending) : Prop where
  explains : Explains world (session.graph.operands meaning) (session.graph.products meaning)
    0 slots session.body.instructions
  accounts : account (session.graph.operands meaning) [] session.body.instructions = behaviour
  /-- Values are as wide as what they mean. -/
  wide : ∀ instruction ∈ session.body.instructions,
    ∀ value ∈ session.graph.pushesOf instruction.id,
      (meaning value).isWide = session.simulation.isWideValue value

namespace Means

variable {session next : Session} {world : World} {meaning : ValueId → Value} {slots : Slots}
  {behaviour : List Observation × Ending} {instruction : Instruction} {id : ContextId}
  {context : Context} {waiting later : List ValueId}

/-- Only the body and the simulation matter. -/
theorem congr (means : session.Means world meaning slots behaviour)
    (sameBody : next.body = session.body)
    (sameSimulation : next.simulation = session.simulation) :
    next.Means world meaning slots behaviour := by
  have sameGraph : next.graph = session.graph := by rw [graph, sameSimulation, graph]
  obtain ⟨explains, accounts, wide⟩ := means
  constructor
  · rw [sameGraph, sameBody]
    exact explains
  · rw [sameGraph, sameBody]
    exact accounts
  · rw [sameGraph, sameBody, sameSimulation]
    exact wide

/-- An instruction may be erased if it is not observed, if the rest of the body can be
explained without it, and if the others pop and push what means the same. -/
theorem erase {graph : Graph} (means : session.Means world meaning slots behaviour)
    (hosts : session.Hosts instruction id context) (unobserved : Unobserved instruction.op)
    (dispensable : ∀ rear, (∀ other ∈ rear, other ∈ session.body.instructions) →
      ∀ count slots,
        Explains world (session.graph.operands meaning) (session.graph.products meaning)
          count slots (instruction :: rear) →
        Explains world (session.graph.operands meaning) (session.graph.products meaning)
          count slots rear)
    (samePops : ∀ other ∈ (session.body.erase instruction.id).instructions,
      graph.operands meaning other.id = session.graph.operands meaning other.id)
    (samePushes : ∀ other ∈ (session.body.erase instruction.id).instructions,
      graph.pushesOf other.id = session.graph.pushesOf other.id)
    (sameWidth : ((session.withGraph graph).drop instruction).simulation.isWideValue =
      session.simulation.isWideValue) :
    ((session.withGraph graph).drop instruction).Means world meaning slots behaviour := by
  obtain ⟨front, rear, split⟩ := List.append_of_mem hosts.member
  have body : (session.body.erase instruction.id).instructions = front ++ rear :=
    Body.instructions_erase split
  have explains := means.explains
  have accounts := means.accounts
  rw [split] at explains accounts
  have inRear : ∀ other ∈ rear, other ∈ session.body.instructions := by
    intro other member
    rw [split]
    exact List.mem_append_right _ (List.mem_cons_of_mem _ member)
  constructor
  · have shorter := explains.append_mono (dispensable rear inRear)
    rw [← body] at shorter
    refine shorter.congr samePops ?_
    intro other member
    exact congrArg (List.map meaning) (samePushes other member)
  · have shorter : account (session.graph.operands meaning) [] (front ++ rear) = behaviour := by
      rw [← accounts]
      exact account_append_congr fun trace => (unobserved.account_cons trace).symm
    rw [← shorter, ← body]
    exact account_congr samePops
  · intro other member value pushed
    have pushed := samePushes other member ▸ pushed
    rw [sameWidth]
    exact means.wide other ((Body.mem_erase hosts.member).mp member).1 value pushed

/-- Deleting an instruction without side effects is not observed. -/
theorem deleted (means : session.Means world meaning slots behaviour) (sound : session.Sound)
    (deletes : session.Deletes instruction id context)
    (pure : instruction.op.hasSideEffect = false) :
    (session.deleted instruction id).Means world meaning slots behaviour := by
  refine means.erase deletes.toHosts (.of_pure pure) ?_ ?_ ?_ (isWideValue_deleted deletes)
  · intro rear _ count slots explains
    exact explains.of_cons_pure pure
  · intro other member
    exact congrArg (List.map meaning) (sound.popsOf_deleted deletes member)
  · intro other member
    exact sound.pushesOf_deleted deletes member

/-- Deleting a store to a slot that no load reads is not observed. -/
theorem deleted_store (means : session.Means world meaning slots behaviour)
    (sound : session.Sound) (deletes : session.Deletes instruction id context) {kind : LocalKind}
    {index : UInt16} (op : instruction.op = .store kind index)
    (unread : index ∉ DeadStore.readSlots session.body) :
    (session.deleted instruction id).Means world meaning slots behaviour := by
  have unobserved : Unobserved instruction.op := op ▸ .store kind index
  refine means.erase deletes.toHosts unobserved ?_ ?_ ?_ (isWideValue_deleted deletes)
  · intro rear inRear count slots explains
    exact explains.of_cons_store op (DeadStore.not_reads unread inRear)
  · intro other member
    exact congrArg (List.map meaning) (sound.popsOf_deleted deletes member)
  · intro other member
    exact sound.pushesOf_deleted deletes member

/-- The copies of a duplication mean what the duplicated value means. -/
theorem meaning_survivor (means : session.Means world meaning slots behaviour)
    (sound : session.Sound) {source released survivor : ValueId} {taker : ContextId}
    {rewired : Graph}
    (collapses :
      session.Collapses instruction id context source released survivor taker rewired) :
    meaning survivor = meaning source := by
  obtain ⟨hosts, copies, bypass, _⟩ := collapses
  obtain ⟨before, there, _, made⟩ := means.explains.of_mem hosts.member
  simp only [Graph.operands, Graph.products, sound.popsOf_eq hosts, sound.pushesOf_eq hosts,
    bypass.pops, List.map_cons, List.map_nil] at made
  have doubled : results world before there instruction.op [meaning source] =
      [meaning source, meaning source] := by
    cases op : instruction.op <;> simp_all [Op.isDuplication, results]
  rw [doubled] at made
  rcases bypass.pushes with first | second
  · rw [first] at made
    simp only [List.map_cons, List.map_nil, List.cons.injEq] at made
    exact made.2.1
  · rw [second] at made
    simp only [List.map_cons, List.map_nil, List.cons.injEq] at made
    exact made.1

/-- Taking a duplication out is not observed. -/
theorem collapsed (means : session.Means world meaning slots behaviour) (sound : session.Sound)
    {source released survivor : ValueId} {taker : ContextId} {rewired : Graph}
    (collapses :
      session.Collapses instruction id context source released survivor taker rewired) :
    (session.collapsed instruction id rewired).Means world meaning slots behaviour := by
  have pure := hasSideEffect_of_isDuplication collapses.copies
  refine means.erase collapses.toHosts (.of_pure pure) ?_ ?_ ?_
    (isWideValue_collapsed sound collapses)
  · intro rear _ count slots explains
    exact explains.of_cons_pure pure
  · intro other member
    have renamed : (rewired.detach id).popsOf other.id =
        (session.graph.popsOf other.id).map (Graph.rename survivor source) :=
      sound.popsOf_collapsed collapses member
    rw [Graph.operands, renamed]
    exact Graph.map_map_rename (means.meaning_survivor sound collapses) _
  · intro other member
    exact sound.pushesOf_collapsed collapses member

/-- Letting an inserted instruction take a value is not observed. -/
theorem discarded (means : session.Means world meaning slots behaviour) (sound : session.Sound)
    {released : ValueId} (discards : session.Discards instruction id context released) :
    (session.discarded instruction released).Means world meaning slots behaviour := by
  obtain ⟨front, rear, split⟩ := List.append_of_mem discards.member
  have body : (session.discarded instruction released).body.instructions =
      front ++ instruction :: session.taker instruction released :: rear :=
    Body.instructions_splice split _
  have sameOperands : ∀ other ∈ session.body.instructions,
      (session.discarded instruction released).graph.operands meaning other.id =
        session.graph.operands meaning other.id :=
    fun other member => congrArg (List.map meaning) (sound.popsOf_discarded discards member)
  have sameProducts : ∀ other ∈ session.body.instructions,
      (session.discarded instruction released).graph.products meaning other.id =
        session.graph.products meaning other.id :=
    fun other member => congrArg (List.map meaning) (sound.pushesOf_discarded discards member)
  have pushed : released ∈ session.graph.pushesOf instruction.id := by
    rw [sound.pushesOf_eq discards.toHosts, discards.pushes]
    exact List.mem_singleton.mpr rfl
  have asWide := means.wide instruction discards.member released pushed
  have op : (session.taker instruction released).op = .pop ∨
      ((session.taker instruction released).op = .pop2 ∧ (meaning released).isWide = true) := by
    rcases discardOp_cases (session.graph.content released).type with ⟨wide, op⟩ | ⟨_, op⟩
    · exact .inr ⟨op, asWide.trans wide⟩
    · exact .inl op
  have pure : (session.taker instruction released).op.hasSideEffect = false := by
    rcases op with narrow | ⟨wide, _⟩
    · rw [narrow]
      rfl
    · rw [wide]
      rfl
  -- The taker stands right behind its producer.
  have before : front ++ instruction :: rear = (front ++ [instruction]) ++ rear := by simp
  have behind : front ++ instruction :: session.taker instruction released :: rear =
      (front ++ [instruction]) ++ session.taker instruction released :: rear := by simp
  constructor
  · have explains := means.explains.congr sameOperands sameProducts
    rw [split, before] at explains
    rw [body, behind]
    refine explains.append_mono ?_
    intro count slots tail
    refine tail.cons_discard op ?_ ?_
    · rw [Graph.operands, sound.popsOf_taker discards]
      rfl
    · rw [Graph.products, sound.pushesOf_taker discards]
      rfl
  · have accounts := means.accounts
    rw [← account_congr sameOperands, split, before] at accounts
    rw [body, behind, ← accounts]
    exact account_append_congr fun trace => (Unobserved.of_pure pure).account_cons trace
  · intro other member value pushed
    rw [isWideValue_discarded]
    rcases (Body.mem_splice discards.member).mp member with old | isTaker
    · rw [sound.pushesOf_discarded discards old] at pushed
      exact means.wide other old value pushed
    · have isTaker : other = session.taker instruction released := isTaker
      rw [isTaker, sound.pushesOf_taker discards] at pushed
      cases pushed

/-- No step of a removal is observed. -/
theorem step (means : session.Means world meaning slots behaviour) (sound : session.Sound)
    (step : Step session waiting next later) : next.Means world meaning slots behaviour := by
  cases step with
  | pass => exact means
  | delete deletes pure => exact means.deleted sound deletes pure
  | collapse collapses => exact means.collapsed sound collapses
  | discard discards => exact means.discarded sound discards

/-- Any number of steps keeps what the graph means and how the body behaves. -/
theorem steps (means : session.Means world meaning slots behaviour) (sound : session.Sound)
    (steps : Steps session waiting next later) : next.Means world meaning slots behaviour := by
  induction steps with
  | done => exact means
  | next step _ ih => exact ih (means.step sound step) (sound.step step)

end Means

end Session

end ClassTrim
