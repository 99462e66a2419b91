import ClassTrim.Proofs.Retirement.Edits
import ClassTrim.Proofs.Retirement.Walk

/-!
# Removals keep the walk

A session in which values wait is threaded if its body can be walked except for them
(`Walk`), its instructions push values in increasing order, and every instruction finds
operands of the widths that it needs. A session is threaded when it begins, with nothing
waiting, and every step of a removal keeps it threaded.
-/

namespace ClassTrim.Session

variable {session next : Session} {instruction other : Instruction} {id place : ContextId}
  {context entry : Context} {waiting rest : List ValueId}

/-- The body can be walked except for waiting values, and in the order and with the widths
that an execution of it needs. -/
structure Threaded (session : Session) (waiting : List ValueId) : Prop where
  walk : Walk session.graph.popsOf session.graph.pushesOf session.graph.isLiveValue waiting
    session.simulation.frame.stack session.body.instructions
  ascending : (session.body.instructions.flatMap fun instruction =>
    session.graph.pushesOf instruction.id).Pairwise (· < ·)
  widths : ∀ instruction ∈ session.body.instructions, Simulation.WidthLaw instruction
    ((session.graph.popsOf instruction.id).map session.simulation.isWideValue)
    ((session.graph.pushesOf instruction.id).map session.simulation.isWideValue)

namespace Threaded

/-- A session begins threaded, with nothing waiting. -/
theorem start {frame : Frame} {body : Body} {simulation : Simulation} (fresh : frame.stack = [])
    (ran : Simulation.run frame body = .ok simulation) :
    (Session.start body simulation).Threaded [] := by
  have recorded := Simulation.Recorded.run fresh ran
  have sound := Sound.start fresh ran
  have popped : ∀ instruction ∈ body.instructions,
      ∀ value ∈ (Session.start body simulation).graph.popsOf instruction.id,
        (Session.start body simulation).graph.isLiveValue value = true ∧
          value ∉ simulation.frame.stack := by
    intro instruction member value inside
    obtain ⟨id, context, hosts⟩ := sound.exists_hosts member
    rw [sound.popsOf_eq hosts] at inside
    obtain ⟨node, present, alive, only⟩ := sound.linked.popped hosts.found hosts.live inside
    refine ⟨(Graph.isLiveValue_of_value? present).trans alive, ?_⟩
    intro waits
    obtain ⟨same, again, free⟩ := (recorded.mirrored.waiting value).mp waits
    rw [show simulation.graph.value? value = some node from present, Option.some.injEq] at again
    rw [← again, only] at free
    cases free
  have ascending : (body.instructions.flatMap fun instruction =>
      simulation.graph.pushesOf instruction.id).Pairwise (· < ·) := by
    rw [recorded.ordered]
    exact List.pairwise_lt_range
  refine ⟨⟨List.nodup_nil, by simp, ?_, ?_⟩, ascending, recorded.widths⟩
  · intro value member
    exact ⟨by simp, fun instruction inside listed =>
      (popped instruction inside value listed).2 member⟩
  · apply recorded.threads.filter
    intro instruction member value inside
    simp [shown, (popped instruction member value inside).1]

/-- Only the body and the simulation matter. -/
theorem congr (threaded : session.Threaded waiting) (sameBody : next.body = session.body)
    (sameSimulation : next.simulation = session.simulation) : next.Threaded waiting := by
  have sameGraph : next.graph = session.graph := by rw [graph, sameSimulation, graph]
  obtain ⟨walk, ascending, widths⟩ := threaded
  constructor
  · rw [sameGraph, sameBody, sameSimulation]
    exact walk
  · rw [sameGraph, sameBody]
    exact ascending
  · rw [sameGraph, sameBody, sameSimulation]
    exact widths

/-- Instructions that are left push in the order in which they pushed. -/
theorem ascending_sides {pushes : InstructionId → List ValueId} {front rear : List Instruction}
    (ascending : ((front ++ instruction :: rear).flatMap fun other => pushes other.id).Pairwise
      (· < ·)) :
    ((front ++ rear).flatMap fun other => pushes other.id).Pairwise (· < ·) := by
  refine List.Pairwise.sublist ?_ ascending
  rw [List.flatMap_append, List.flatMap_append, List.flatMap_cons]
  exact List.Sublist.append (List.Sublist.refl _) (List.sublist_append_right _ _)

/-- What a body pushes depends only on what its own instructions push. -/
theorem flatMap_congr {pushes otherPushes : InstructionId → List ValueId}
    {body : List Instruction}
    (same : ∀ other ∈ body, otherPushes other.id = pushes other.id) :
    (body.flatMap fun other => otherPushes other.id) =
      body.flatMap fun other => pushes other.id := by
  simp only [List.flatMap]
  rw [List.map_congr_left same]

/-- A deletion leaves a threaded session in which what the instruction popped waits. -/
theorem deleted {dropped : List ValueId} (threaded : session.Threaded (dropped ++ rest))
    (sound : session.Sound) (deletes : session.Deletes instruction id context)
    (own : ∀ value ∈ dropped, value ∈ context.pushes) :
    (session.deleted instruction id).Threaded (context.pops ++ rest) := by
  obtain ⟨front, rear, split⟩ := List.append_of_mem deletes.member
  have hosts := deletes.toHosts
  have popsHere := sound.popsOf_eq hosts
  have pushesHere := sound.pushesOf_eq hosts
  have body : (session.deleted instruction id).body.instructions = front ++ rear :=
    Body.instructions_erase split
  have samePops : ∀ other ∈ front ++ rear,
      (session.deleted instruction id).graph.popsOf other.id = session.graph.popsOf other.id :=
    fun _ member => sound.popsOf_deleted deletes (body ▸ member)
  have samePushes : ∀ other ∈ front ++ rear,
      (session.deleted instruction id).graph.pushesOf other.id =
        session.graph.pushesOf other.id :=
    fun _ member => sound.pushesOf_deleted deletes (body ▸ member)
  have living : (session.deleted instruction id).graph.isLiveValue = fun value =>
      session.graph.isLiveValue value && decide (value ∉ context.pushes) := by
    funext value
    show ((session.graph.detach id).value? value).any (·.live) = _
    rw [Graph.value?_detach _ id context deletes.found]
    cases present : session.graph.value? value <;> simp [Graph.isLiveValue, present]
  have walk := threaded.walk
  have ascending := threaded.ascending
  rw [split] at walk ascending
  constructor
  · rw [body, living, ← popsHere, ← pushesHere]
    refine (walk.delete ?_ ?_ ?_ ?_).congr samePops samePushes
    · rw [pushesHere]
      exact own
    · rw [pushesHere]
      intro value pushed other member
      obtain ⟨_, place, entry, others, _⟩ := sound.stays_deleted deletes (body ▸ member)
      rw [sound.popsOf_eq others]
      exact sound.linked.not_mem_pops_of_idle (deletes.untaken value pushed) others.found
        others.live
    · rw [popsHere]
      intro value popped other member
      obtain ⟨distinct, place, entry, others, _⟩ := sound.stays_deleted deletes (body ▸ member)
      rw [sound.popsOf_eq others]
      exact fun again => distinct (sound.id_eq_of_mem_pops others hosts again popped)
    · rw [popsHere]
      exact sound.linked.popsDistinct hosts.found hosts.live
  · rw [body, flatMap_congr samePushes]
    exact ascending_sides ascending
  · intro other member
    rw [body] at member
    rw [samePops other member, samePushes other member, isWideValue_deleted deletes]
    exact threaded.widths other (split ▸ Walk.mem_of_mem_sides member)

/-- The copies that a duplication pushed are as wide as what it copied. -/
theorem isWideValue_survivor (threaded : session.Threaded waiting) (sound : session.Sound)
    {source released survivor : ValueId} {taker : ContextId} {rewired : Graph}
    (collapses :
      session.Collapses instruction id context source released survivor taker rewired) :
    session.simulation.isWideValue survivor = session.simulation.isWideValue source := by
  obtain ⟨hosts, copies, bypass, _⟩ := collapses
  have law := (threaded.widths instruction hosts.member).2.2
  rw [sound.popsOf_eq hosts, sound.pushesOf_eq hosts, bypass.pops] at law
  have widths : instruction.op.widths [session.simulation.isWideValue source] =
      [session.simulation.isWideValue source, session.simulation.isWideValue source] := by
    cases op : instruction.op <;> simp_all [Op.isDuplication, Op.widths]
  rw [List.map_cons, List.map_nil, widths] at law
  rcases bypass.pushes with first | second
  · rw [first] at law
    simp only [List.map_cons, List.map_nil, List.cons.injEq] at law
    exact law.2.1
  · rw [second] at law
    simp only [List.map_cons, List.map_nil, List.cons.injEq] at law
    exact law.1

/-- Taking a duplication out settles the copy that waited. -/
theorem collapsed {source released survivor : ValueId} {taker : ContextId} {rewired : Graph}
    (threaded : session.Threaded (released :: rest)) (sound : session.Sound)
    (collapses :
      session.Collapses instruction id context source released survivor taker rewired) :
    (session.collapsed instruction id rewired).Threaded rest := by
  have hosts := collapses.toHosts
  have bypass := collapses.bypass
  obtain ⟨front, rear, split⟩ := List.append_of_mem hosts.member
  have pushesHere := sound.pushesOf_eq hosts
  have body : (session.collapsed instruction id rewired).body.instructions = front ++ rear :=
    Body.instructions_erase split
  have renamedPops : ∀ other ∈ front ++ rear,
      (session.collapsed instruction id rewired).graph.popsOf other.id =
        (session.graph.popsOf other.id).map (Graph.rename survivor source) :=
    fun _ member => sound.popsOf_collapsed collapses (body ▸ member)
  have samePushes : ∀ other ∈ front ++ rear,
      (session.collapsed instruction id rewired).graph.pushesOf other.id =
        session.graph.pushesOf other.id :=
    fun _ member => sound.pushesOf_collapsed collapses (body ▸ member)
  have living : (session.collapsed instruction id rewired).graph.isLiveValue = fun value =>
      session.graph.isLiveValue value && decide (value ∉ context.pushes) := by
    funext value
    show ((rewired.detach id).value? value).any (·.live) = _
    rw [bypass.value?_eq sound.linked sound.ordered collapses.done]
    cases present : session.graph.value? value <;> simp [Graph.isLiveValue, present]
  have survives : survivor ∈ context.pushes := bypass.mem_pushes.mpr (.inr rfl)
  have walk := threaded.walk
  have ascending := threaded.ascending
  rw [split] at walk ascending
  constructor
  · rw [body, living, ← pushesHere]
    refine (walk.bypass ?_ ?_ ?_ ?_ ?_).congr renamedPops samePushes
    · exact (sound.popsOf_eq hosts).trans bypass.pops
    · rw [pushesHere]
      exact bypass.pushes
    · exact sound.isLiveValue_of_mem_pushes hosts survives
    · obtain ⟨entry, found, live, popped⟩ := bypass.taker_context sound.linked
      obtain ⟨taking, member, records⟩ := sound.hosted found live
      rw [← split]
      exact ⟨taking, member, sound.popsOf_eq ⟨member, found, live, records⟩ ▸ popped⟩
    · intro other member
      obtain ⟨distinct, place, entry, others, _⟩ := sound.stays_collapsed collapses (body ▸ member)
      rw [sound.pushesOf_eq others]
      exact fun pushed => distinct (sound.id_eq_of_mem_pushes others hosts pushed survives)
  · rw [body, flatMap_congr samePushes]
    exact ascending_sides ascending
  · intro other member
    rw [body] at member
    have sameWidths : ((session.graph.popsOf other.id).map (Graph.rename survivor source)).map
        session.simulation.isWideValue =
        (session.graph.popsOf other.id).map session.simulation.isWideValue :=
      Graph.map_map_rename (threaded.isWideValue_survivor sound collapses) _
    rw [renamedPops other member, samePushes other member, isWideValue_collapsed sound collapses,
      sameWidths]
    exact threaded.widths other (split ▸ Walk.mem_of_mem_sides member)

/-- The inserted instruction may take the value: it is the wide form exactly if the value
is wide. -/
theorem widthLaw_taker (session : Session) (producer : Instruction) (released : ValueId) :
    Simulation.WidthLaw (session.taker producer released)
      [session.simulation.isWideValue released] [] := by
  have same : session.simulation.isWideValue released =
      (session.graph.content released).type.isWide := rfl
  rcases discardOp_cases (session.graph.content released).type with ⟨wide, op⟩ | ⟨narrow, op⟩
  · simp [Simulation.WidthLaw, taker, op, same, wide, Simulation.formFault?, Op.widths]
  · simp [Simulation.WidthLaw, taker, op, Simulation.formFault?, Op.widths, Op.needsWideTop]

/-- Letting an inserted instruction take the waiting value settles it. -/
theorem discarded {released : ValueId} (threaded : session.Threaded (released :: rest))
    (sound : session.Sound) (discards : session.Discards instruction id context released) :
    (session.discarded instruction released).Threaded rest := by
  obtain ⟨front, rear, split⟩ := List.append_of_mem discards.member
  have hosts := discards.toHosts
  have body : (session.discarded instruction released).body.instructions =
      front ++ instruction :: session.taker instruction released :: rear :=
    Body.instructions_splice split _
  have samePops : ∀ other ∈ front ++ instruction :: rear,
      (session.discarded instruction released).graph.popsOf other.id =
        session.graph.popsOf other.id :=
    fun _ member => sound.popsOf_discarded discards (split ▸ member)
  have samePushes : ∀ other ∈ front ++ instruction :: rear,
      (session.discarded instruction released).graph.pushesOf other.id =
        session.graph.pushesOf other.id :=
    fun _ member => sound.pushesOf_discarded discards (split ▸ member)
  have living : (session.discarded instruction released).graph.isLiveValue =
      session.graph.isLiveValue := by
    funext value
    show ((session.graph.take _ _ released).value? value).any (·.live) = _
    rw [Graph.value?_take]
    cases present : session.graph.value? value <;> simp [Graph.isLiveValue, present]
  have pushedHere : released ∈ context.pushes := by simp [discards.pushes]
  have nothing := sound.pushesOf_taker discards
  have walk := threaded.walk
  have ascending := threaded.ascending
  rw [split] at walk ascending
  constructor
  · rw [body, living]
    refine (walk.congr samePops samePushes).take ?_ ?_ ?_ (sound.popsOf_taker discards) nothing
    · rw [sound.pushesOf_discarded discards hosts.member, sound.pushesOf_eq hosts, discards.pushes]
    · exact sound.isLiveValue_of_mem_pushes hosts pushedHere
    · intro other member
      have inside : other ∈ session.body.instructions := split ▸ Walk.mem_of_mem_sides member
      obtain ⟨place, entry, others⟩ := sound.exists_hosts inside
      have distinct : other.id ≠ instruction.id := by
        rcases List.mem_append.mp member with before | behind
        · exact Body.id_ne_of_mem_front split before
        · exact Body.id_ne_of_mem_rear split behind
      rw [sound.pushesOf_discarded discards inside, sound.pushesOf_eq others]
      exact fun pushed => distinct (sound.id_eq_of_mem_pushes others hosts pushed pushedHere)
  · have unchanged : (front ++ instruction :: session.taker instruction released :: rear).flatMap
        (fun other => (session.discarded instruction released).graph.pushesOf other.id) =
        (front ++ instruction :: rear).flatMap
          (fun other => (session.discarded instruction released).graph.pushesOf other.id) := by
      simp [List.flatMap_cons, nothing]
    rw [body, unchanged, flatMap_congr samePushes]
    exact ascending
  · intro other member
    rw [isWideValue_discarded]
    rcases (Body.mem_splice discards.member).mp member with old | isTaker
    · rw [sound.popsOf_discarded discards old, sound.pushesOf_discarded discards old]
      exact threaded.widths other old
    · have isTaker : other = session.taker instruction released := isTaker
      rw [isTaker, sound.popsOf_taker discards, nothing]
      exact widthLaw_taker session instruction released

/-- Every step of a removal keeps a session threaded. -/
theorem step {later : List ValueId} (threaded : session.Threaded waiting) (sound : session.Sound)
    (step : Step session waiting next later) : next.Threaded later := by
  cases step with
  | pass settled =>
    have dead := sound.dead_of_not_stranded settled fun instruction member =>
      threaded.walk.idle _ List.mem_cons_self instruction member
    exact ⟨threaded.walk.pass dead, threaded.ascending, threaded.widths⟩
  | @delete instruction id context value rest deletes _ pushed =>
    have threaded : session.Threaded ([value] ++ rest) := threaded
    exact threaded.deleted sound deletes (by simpa using pushed)
  | collapse collapses => exact threaded.collapsed sound collapses
  | discard discards => exact threaded.discarded sound discards

/-- Any number of steps keep the body walkable except for what still waits. -/
theorem steps {later : List ValueId} (threaded : session.Threaded waiting) (sound : session.Sound)
    (steps : Steps session waiting next later) : next.Threaded later := by
  induction steps with
  | done => exact threaded
  | next step _ ih => exact ih (threaded.step sound step) (sound.step step)

/-- A removal that succeeds keeps a session sound and threaded. -/
theorem remove {target : InstructionId} {report : Report} (threaded : session.Threaded [])
    (sound : session.Sound) (removed : (session.remove target).1 = .ok report) :
    (session.remove target).2.Threaded [] ∧ (session.remove target).2.Sound := by
  rcases remove_cases sound target with
    ⟨fault, _, failed⟩ | ⟨instruction, id, context, settled, later, _, deletes, steps, outcome⟩
  · rw [failed] at removed
    cases removed
  · have first : (session.deleted instruction id).Threaded context.pops := by
      have threaded : session.Threaded ([] ++ []) := threaded
      have after := threaded.deleted sound deletes (by simp)
      rwa [List.append_nil] at after
    have last := first.steps (sound.deleted deletes) steps
    have lastSound := (sound.deleted deletes).steps steps
    rcases outcome with ⟨nothing, succeeded⟩ | ⟨_, _, _, _, failed⟩
    · rw [nothing] at last
      rw [succeeded]
      exact ⟨last.congr rfl rfl, lastSound.congr rfl rfl⟩
    · rw [failed] at removed
      cases removed

end Threaded

end ClassTrim.Session
