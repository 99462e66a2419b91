import ClassTrim.Proofs.DeadStore.Census
import ClassTrim.Proofs.Simulation.Facts

/-!
# Elimination forgets nothing

What a run knows about the values of a body stays founded through every step of a removal. To
delete an instruction takes away only what it made itself, the copies of a duplication are known no
better than the duplicated value, and a slot that no load reads founds nothing. So when the body
that a removal leaves is run again, every instruction that is still there pushes values of the same
kinds, and the new run knows of them what the first one knew.
-/

namespace ClassTrim

namespace Session

variable {session next first : Session} {instruction other : Instruction} {id : ContextId}
  {context : Context} {waiting later : List ValueId} {locals : Locals}

section Contents

/-- A deletion does not change what is known of the values that other instructions pop. -/
theorem contentsPopped_deleted (sound : session.Sound)
    (deletes : session.Deletes instruction id context)
    (member : other ∈ (session.deleted instruction id).body.instructions) :
    (session.deleted instruction id).graph.contentsPopped other.id =
      session.graph.contentsPopped other.id := by
  rw [Graph.contentsPopped, sound.popsOf_deleted deletes member,
    funext (content_deleted deletes), Graph.contentsPopped]

/-- A deletion does not change what is known of the values that other instructions push. -/
theorem contentsPushed_deleted (sound : session.Sound)
    (deletes : session.Deletes instruction id context)
    (member : other ∈ (session.deleted instruction id).body.instructions) :
    (session.deleted instruction id).graph.contentsPushed other.id =
      session.graph.contentsPushed other.id := by
  rw [Graph.contentsPushed, sound.pushesOf_deleted deletes member,
    funext (content_deleted deletes), Graph.contentsPushed]

/-- A collapse rewires takers of a copy; what other instructions push stays as known as it was. -/
theorem contentsPushed_collapsed (sound : session.Sound) {source released survivor : ValueId}
    {taker : ContextId} {rewired : Graph}
    (collapses :
      session.Collapses instruction id context source released survivor taker rewired)
    (member : other ∈ (session.collapsed instruction id rewired).body.instructions) :
    (session.collapsed instruction id rewired).graph.contentsPushed other.id =
      session.graph.contentsPushed other.id := by
  rw [Graph.contentsPushed, sound.pushesOf_collapsed collapses member,
    funext (content_collapsed sound collapses), Graph.contentsPushed]

/-- An inserted taker does not change what is known of the values that the old instructions pop. -/
theorem contentsPopped_discarded (sound : session.Sound) {released : ValueId}
    (discards : session.Discards instruction id context released)
    (member : other ∈ session.body.instructions) :
    (session.discarded instruction released).graph.contentsPopped other.id =
      session.graph.contentsPopped other.id := by
  rw [Graph.contentsPopped, sound.popsOf_discarded discards member,
    funext (content_discarded session instruction released), Graph.contentsPopped]

/-- An inserted taker does not change what is known of the values that the old instructions push. -/
theorem contentsPushed_discarded (sound : session.Sound) {released : ValueId}
    (discards : session.Discards instruction id context released)
    (member : other ∈ session.body.instructions) :
    (session.discarded instruction released).graph.contentsPushed other.id =
      session.graph.contentsPushed other.id := by
  rw [Graph.contentsPushed, sound.pushesOf_discarded discards member,
    funext (content_discarded session instruction released), Graph.contentsPushed]

end Contents

/-- What the graph knows is founded on the slots that the body begins with, and the instructions
that were there at first push what they pushed. -/
structure Informed (session first : Session) (locals : Locals) : Prop where
  founded : Simulation.Founded Content.Upholds session.graph.contentsPopped
    session.graph.contentsPushed locals session.body.instructions
  kept : ∀ instruction ∈ session.body.instructions, instruction.id < first.body.nextId →
    instruction ∈ first.body.instructions ∧
      session.graph.contentsPushed instruction.id = first.graph.contentsPushed instruction.id
  /-- What is inserted gets an identifier that was not given before. -/
  grown : first.body.nextId ≤ session.body.nextId

namespace Informed

/-- A session that begins with a run is informed by itself. -/
theorem start {frame : Frame} {body : Body} {simulation : Simulation} (fresh : frame.stack = [])
    (ran : Simulation.run frame body = .ok simulation) :
    (Session.start body simulation).Informed (Session.start body simulation) frame.locals where
  founded := (Simulation.Recorded.founded fresh ran).imp fun same => same ▸ .refl _
  kept := fun _ member _ => ⟨member, rfl⟩
  grown := Nat.le_refl _

/-- Only the body and the simulation matter. -/
theorem congr (informed : session.Informed first locals) (sameBody : next.body = session.body)
    (sameSimulation : next.simulation = session.simulation) : next.Informed first locals := by
  have sameGraph : next.graph = session.graph := by rw [graph, sameSimulation, graph]
  obtain ⟨founded, kept, grown⟩ := informed
  constructor
  · rw [sameGraph, sameBody]
    exact founded
  · rw [sameGraph, sameBody]
    exact kept
  · rw [sameBody]
    exact grown

/-- An instruction may be erased if the rest of the body is founded without it, and if no less is
known about what the others pop. -/
theorem erase {graph : Graph} (informed : session.Informed first locals)
    (hosts : session.Hosts instruction id context)
    (dispensable : ∀ rear, (∀ other ∈ rear, other ∈ session.body.instructions) → ∀ locals,
      Simulation.Founded Content.Upholds session.graph.contentsPopped
        session.graph.contentsPushed locals (instruction :: rear) →
      Simulation.Founded Content.Upholds session.graph.contentsPopped
        session.graph.contentsPushed locals rear)
    (pops : ∀ other ∈ (session.body.erase instruction.id).instructions,
      List.Forall₂ Content.Upholds (graph.contentsPopped other.id)
        (session.graph.contentsPopped other.id))
    (pushes : ∀ other ∈ (session.body.erase instruction.id).instructions,
      graph.contentsPushed other.id = session.graph.contentsPushed other.id) :
    ((session.withGraph graph).drop instruction).Informed first locals where
  founded := by
    obtain ⟨front, rear, split⟩ := List.append_of_mem hosts.member
    have body : (session.body.erase instruction.id).instructions = front ++ rear :=
      Body.instructions_erase split
    have founded := informed.founded
    rw [split] at founded
    have inRear : ∀ other ∈ rear, other ∈ session.body.instructions := by
      intro other member
      rw [split]
      exact List.mem_append_right _ (List.mem_cons_of_mem _ member)
    have shorter := founded.append_mono (dispensable rear inRear)
    rw [← body] at shorter
    exact (shorter.mono pops (.refl _ locals)).congr (fun _ _ => rfl) pushes
  kept := by
    intro other member old
    obtain ⟨inside, same⟩ := informed.kept other ((Body.mem_erase hosts.member).mp member).1 old
    exact ⟨inside, (pushes other member).trans same⟩
  grown := informed.grown

/-- What may be left out may be deleted: the others keep what they pop and push. -/
theorem delete (informed : session.Informed first locals) (sound : session.Sound)
    (deletes : session.Deletes instruction id context)
    (dispensable : ∀ rear, (∀ other ∈ rear, other ∈ session.body.instructions) → ∀ locals,
      Simulation.Founded Content.Upholds session.graph.contentsPopped
        session.graph.contentsPushed locals (instruction :: rear) →
      Simulation.Founded Content.Upholds session.graph.contentsPopped
        session.graph.contentsPushed locals rear) :
    (session.deleted instruction id).Informed first locals := by
  refine informed.erase deletes.toHosts dispensable ?_ ?_
  · intro other member
    exact contentsPopped_deleted sound deletes member ▸ Content.Upholds.refl_all _
  · intro other member
    exact contentsPushed_deleted sound deletes member

/-- Deleting an instruction without side effects takes away only what it made. -/
theorem deleted (informed : session.Informed first locals) (sound : session.Sound)
    (deletes : session.Deletes instruction id context)
    (pure : instruction.op.hasSideEffect = false) :
    (session.deleted instruction id).Informed first locals :=
  informed.delete sound deletes fun _ _ _ founded => founded.of_cons_pure pure

/-- Nothing is known about a copy that is not known about the duplicated value. -/
theorem upholds_survivor (informed : session.Informed first locals) (sound : session.Sound)
    {source released survivor : ValueId} {taker : ContextId} {rewired : Graph}
    (collapses :
      session.Collapses instruction id context source released survivor taker rewired) :
    (session.graph.content source).Upholds (session.graph.content survivor) := by
  obtain ⟨hosts, copies, bypass, _⟩ := collapses
  obtain ⟨there, made⟩ := informed.founded.of_mem hosts.member
  simp only [Graph.contentsPopped, Graph.contentsPushed, sound.popsOf_eq hosts,
    sound.pushesOf_eq hosts, bypass.pops, List.map_cons, List.map_nil] at made
  have doubled : Simulation.results instruction.op there [session.graph.content source] =
      [session.graph.content source, session.graph.content source] := by
    cases op : instruction.op <;> simp_all [Op.isDuplication, Simulation.results]
  rw [doubled] at made
  rcases bypass.pushes with first | second
  · rw [first] at made
    simp only [List.map_cons, List.map_nil, List.forall₂_cons] at made
    exact made.2.1
  · rw [second] at made
    simp only [List.map_cons, List.map_nil, List.forall₂_cons] at made
    exact made.1

/-- Where a duplication is taken out, no less is known about the operands. -/
theorem collapsed (informed : session.Informed first locals) (sound : session.Sound)
    {source released survivor : ValueId} {taker : ContextId} {rewired : Graph}
    (collapses :
      session.Collapses instruction id context source released survivor taker rewired) :
    (session.collapsed instruction id rewired).Informed first locals := by
  have pure := hasSideEffect_of_isDuplication collapses.copies
  refine informed.erase collapses.toHosts ?_ ?_ ?_
  · intro rear _ locals founded
    exact founded.of_cons_pure pure
  · intro other member
    have renamed : (rewired.detach id).contentsPopped other.id =
        ((session.graph.popsOf other.id).map (Graph.rename survivor source)).map
          session.graph.content := by
      have pops : (rewired.detach id).popsOf other.id = _ := sound.popsOf_collapsed collapses member
      rw [Graph.contentsPopped, pops]
      exact List.map_congr_left fun value _ => content_collapsed sound collapses value
    rw [renamed, Graph.contentsPopped, List.forall₂_map_left_iff, List.forall₂_map_left_iff,
      List.forall₂_map_right_iff, List.forall₂_same]
    intro value _
    by_cases same : value = survivor
    · rw [same, Graph.rename, if_pos rfl]
      exact informed.upholds_survivor sound collapses
    · rw [Graph.rename_of_ne same]
      exact .refl _
  · intro other member
    exact contentsPushed_collapsed sound collapses member

/-- An inserted instruction only takes a value. -/
theorem discarded (informed : session.Informed first locals) (sound : session.Sound)
    {released : ValueId} (discards : session.Discards instruction id context released) :
    (session.discarded instruction released).Informed first locals where
  founded := by
    obtain ⟨front, rear, split⟩ := List.append_of_mem discards.member
    have body : (session.discarded instruction released).body.instructions =
        front ++ instruction :: session.taker instruction released :: rear :=
      Body.instructions_splice split _
    have founded := informed.founded.congr
      (fun other member => contentsPopped_discarded sound discards member)
      (fun other member => contentsPushed_discarded sound discards member)
    have op : (session.taker instruction released).op = .pop ∨
        (session.taker instruction released).op = .pop2 := by
      rcases discardOp_cases (session.graph.content released).type with ⟨_, op⟩ | ⟨_, op⟩
      · exact .inr op
      · exact .inl op
    have before : front ++ instruction :: rear = (front ++ [instruction]) ++ rear := by simp
    have behind : front ++ instruction :: session.taker instruction released :: rear =
        (front ++ [instruction]) ++ session.taker instruction released :: rear := by simp
    rw [split, before] at founded
    rw [body, behind]
    refine founded.append_mono fun locals tail => tail.cons_discard op ?_
    rw [Graph.contentsPushed, sound.pushesOf_taker discards, List.map_nil]
  kept := by
    intro other member old
    rcases (Body.mem_splice discards.member).mp member with inside | isTaker
    · rw [contentsPushed_discarded sound discards inside]
      exact informed.kept other inside old
    · rw [isTaker] at old
      exact absurd old (Nat.not_lt_of_le informed.grown)
  grown := Nat.le_succ_of_le informed.grown

/-- Every step of a removal leaves a session informed. -/
theorem step (informed : session.Informed first locals) (sound : session.Sound)
    (step : Step session waiting next later) : next.Informed first locals := by
  cases step with
  | pass => exact informed
  | delete deletes pure => exact informed.deleted sound deletes pure
  | collapse collapses => exact informed.collapsed sound collapses
  | discard discards => exact informed.discarded sound discards

/-- Any number of steps leaves a session informed. -/
theorem steps (informed : session.Informed first locals) (sound : session.Sound)
    (steps : Steps session waiting next later) : next.Informed first locals := by
  induction steps with
  | done => exact informed
  | next step _ ih => exact ih (informed.step sound step) (sound.step step)

/-- Deleting an instruction that is called dead takes away nothing that founds anything else. -/
theorem deleted_dead {body : Body} {simulation : Simulation}
    (informed : (Session.start body simulation).Informed first locals)
    (sound : (Session.start body simulation).Sound)
    (deletes : (Session.start body simulation).Deletes instruction id context)
    (dead : DeadStore.isDead body simulation.graph instruction = true) :
    ((Session.start body simulation).deleted instruction id).Informed first locals := by
  rcases DeadStore.unread_or_pure dead with ⟨kind, index, op, unread⟩ | pure
  · apply informed.delete sound deletes
    intro rear inRear locals founded
    exact founded.of_cons_store op (DeadStore.not_reads unread inRear)
  · exact informed.deleted sound deletes pure

/-- A run of the body that is left knows what the graph knows. -/
theorem rerun {frame : Frame} {again : Simulation} (informed : session.Informed first frame.locals)
    (threaded : session.Threaded []) (sound : session.Sound) (fresh : frame.stack = [])
    (ran : Simulation.run frame session.body = .ok again) :
    ∀ instruction ∈ session.body.instructions,
      List.Forall₂ Content.Upholds (again.graph.contentsPushed instruction.id)
        (session.graph.contentsPushed instruction.id) := by
  have recorded := Simulation.Recorded.run fresh ran
  refine (Simulation.Recorded.founded fresh ran).upholds informed.founded
    (recorded.threads.map again.graph.content)
    ((threaded.threads sound).map session.graph.content) ?_ .nil (.refl _ _)
  intro instruction member
  rw [Graph.contentsPopped, Graph.contentsPopped, List.length_map, List.length_map,
    recorded.length_popsOf member, sound.length_popsOf instruction member]

end Informed

end Session

namespace DeadStore

variable {frame : Frame} {body stage last : Body} {simulation again : Simulation}
  {id : InstructionId}

/-- What a run of one body knew, a run of another still knows: an instruction of both pushes values
of the same kinds, and known values are the same. -/
structure Recalls (body stage : Body) (simulation again : Simulation) : Prop where
  /-- New instructions have new identifiers. -/
  grown : body.nextId ≤ stage.nextId
  upheld : ∀ instruction ∈ stage.instructions, instruction.id < body.nextId →
    instruction ∈ body.instructions ∧
      List.Forall₂ Content.Upholds (again.graph.contentsPushed instruction.id)
        (simulation.graph.contentsPushed instruction.id)

namespace Recalls

/-- A run recalls itself. -/
theorem refl (body : Body) (simulation : Simulation) : Recalls body body simulation simulation :=
  ⟨Nat.le_refl _, fun _ member _ => ⟨member, Content.Upholds.refl_all _⟩⟩

/-- What one run recalls of another, and that of a third, it recalls of the third. -/
theorem trans {next : Simulation} (first : Recalls body stage simulation again)
    (second : Recalls stage last again next) : Recalls body last simulation next where
  grown := Nat.le_trans first.grown second.grown
  upheld := by
    intro instruction member old
    obtain ⟨between, later⟩ :=
      second.upheld instruction member (Nat.lt_of_lt_of_le old first.grown)
    obtain ⟨inside, earlier⟩ := first.upheld instruction between old
    exact ⟨inside, Content.Upholds.trans_all later earlier⟩

end Recalls

/-- The body that the removal of a candidate leaves runs again, and the run recalls. -/
theorem exists_recalls (fresh : frame.stack = []) (straight : body.hasBranches = false)
    (ran : Simulation.run frame body = .ok simulation)
    (found : candidate? body simulation.graph = some id) :
    ∃ again, Simulation.run frame ((Session.start body simulation).remove id).2.body =
        .ok again ∧
      Recalls body ((Session.start body simulation).remove id).2.body simulation again := by
  obtain ⟨instruction, place, context, settled, deletes, dead, steps, _, removed⟩ :=
    exists_remove_candidate fresh straight ran found
  have sound := Session.Sound.start fresh ran
  obtain ⟨threadedAfter, soundAfter⟩ :=
    (Session.Threaded.start fresh ran).remove sound (congrArg Prod.fst removed)
  have settledInformed := ((Session.Informed.start fresh ran).deleted_dead sound deletes dead).steps
    (sound.deleted deletes) steps
  have informed : ((Session.start body simulation).remove id).2.Informed
      (Session.start body simulation) frame.locals := by
    rw [removed]
    exact settledInformed.congr rfl rfl
  obtain ⟨again, rerun⟩ := threadedAfter.exists_run soundAfter fresh
  have upheld := informed.rerun threadedAfter soundAfter fresh rerun
  refine ⟨again, rerun, informed.grown, ?_⟩
  intro other member old
  obtain ⟨inside, same⟩ := informed.kept other member old
  exact ⟨inside, same ▸ upheld other member⟩

/-- Every stage of an elimination can be run, and the run recalls what the first one knew. -/
theorem Staged.exists_recalls (staged : Staged frame body stage) (fresh : frame.stack = [])
    (straight : body.hasBranches = false) (ran : Simulation.run frame body = .ok simulation) :
    ∃ again, Simulation.run frame stage = .ok again ∧ Recalls body stage simulation again := by
  induction staged with
  | start => exact ⟨simulation, ran, .refl body simulation⟩
  | remove staged runs found ih =>
    obtain ⟨between, rerun, recalls⟩ := ih
    obtain rfl := Except.ok.inj (rerun.symm.trans runs)
    obtain ⟨again, runsNext, further⟩ :=
      DeadStore.exists_recalls fresh (staged.exists_run fresh straight ran).1 runs found
    exact ⟨again, runsNext, recalls.trans further⟩

/-- Elimination forgets nothing and changes nothing that is known. Of a method without branches
that can be run, whatever its loads find, it makes a body that can be run too. An instruction that
is left of the given body pushes values of the kinds that it pushed before, and where the value was
known, the new run knows it to be the same. -/
theorem eliminate_keeps_knowledge (owner : String) (method : MethodDecl) (limit : Nat)
    (given : method.body = some body) (straight : body.hasBranches = false)
    (ran : Simulation.runMethod (some owner) method = .ok simulation) :
    ∃ outcome, eliminate owner method limit = .ok outcome ∧
      ∀ last reports, outcome = some (last, reports) →
        ∃ again, Simulation.runMethod (some owner) { method with body := some last } =
            .ok again ∧
          ∀ old ∈ body.instructions, ∀ new ∈ last.instructions, new.id = old.id →
            new = old ∧ List.Forall₂ Content.Upholds (again.graph.contentsPushed new.id)
              (simulation.graph.contentsPushed old.id) := by
  obtain ⟨frame, framed, ran⟩ := (Simulation.runMethod_eq_ok given).mp ran
  have fresh := Frame.stack_of_forMethod framed
  obtain ⟨result, inner⟩ := exists_eliminateIn fresh limit straight ran
  refine ⟨_, eliminate_of_eliminateIn given straight framed inner, ?_⟩
  intro last reports changed
  obtain rfl := eq_of_outcome_eq_some changed
  have census := (eliminateIn_census fresh straight ran inner).1
  obtain ⟨again, rerun, recalls⟩ :=
    (Staged.start.eliminateIn inner).exists_recalls fresh straight ran
  refine ⟨again, ?_, ?_⟩
  · exact (Simulation.runMethod_eq_ok rfl).mpr
      ⟨frame, (census.forMethod_eq given 0 (some owner)).trans framed, rerun⟩
  · intro old member new left same
    obtain ⟨inside, upheld⟩ := recalls.upheld new left (same ▸ body.issued old member)
    obtain rfl := Body.eq_of_id_eq inside member same
    exact ⟨rfl, upheld⟩

/-- A method that adds two constants, one of which it also stores. -/
def five : MethodDecl :=
  { halve with
    name := "five"
    body := some (.ofPlaced 2 [(.ldc (.int 2), 0), (.dup, 1), (.store .int 1, 2),
      (.ldc (.int 3), 3), (.arith .add .int, 4), (.ret (some .int), 5)]) }

/-- The duplication goes with the store, and the sum is still known. -/
theorem knowledge_eliminate_five :
    ∃ last reports again, eliminate "Numbers" five 3 = .ok (some (last, reports)) ∧
      last.instructions.map Instruction.id = [0, 3, 4, 5] ∧
      Simulation.runMethod (some "Numbers") { five with body := some last } = .ok again ∧
      (again.graph.contentsPushed 4).map Content.value = [.constant (.int 5)] := by
  have path : ∃ body simulation sum, five.body = some body ∧ body.hasBranches = false ∧
      Simulation.runMethod (some "Numbers") five = .ok simulation ∧
      sum ∈ body.instructions ∧ sum.id = 4 ∧
      simulation.graph.contentsPushed 4 = [⟨.int, .constant (.int 5)⟩] :=
    ⟨_, _, ⟨4, 4, .arith .add .int⟩, rfl, rfl, rfl, by simp [Body.ofPlaced], rfl, rfl⟩
  have left : (eliminate "Numbers" five 3).map (Option.map fun pair =>
      pair.1.instructions.map Instruction.id) = .ok (some [0, 3, 4, 5]) := by cbv
  obtain ⟨body, simulation, sum, given, straight, ran, member, named, known⟩ := path
  obtain ⟨outcome, eliminated, keeps⟩ :=
    eliminate_keeps_knowledge "Numbers" five 3 given straight ran
  rw [eliminated] at left
  obtain ⟨⟨last, reports⟩, rfl, kept⟩ := Option.map_eq_some_iff.mp (Except.ok.inj left)
  obtain ⟨again, rerun, upheld⟩ := keeps last reports rfl
  obtain ⟨still, inside, same⟩ : ∃ still ∈ last.instructions, still.id = 4 :=
    List.mem_map.mp (kept ▸ by decide)
  have facts := (upheld sum member still inside (same.trans named.symm)).2
  rw [same, named, known] at facts
  refine ⟨last, reports, again, eliminated, kept, rerun, ?_⟩
  obtain ⟨content, rest, first, nothing, shape⟩ := List.forall₂_cons_right_iff.mp facts
  rw [List.forall₂_nil_right_iff.mp nothing] at shape
  rw [shape, List.map_singleton, first.value rfl]

end DeadStore

end ClassTrim
