import ClassTrim.Proofs.Retirement.Atomicity
import ClassTrim.Proofs.Retirement.Descent
import ClassTrim.Proofs.Simulation.Facts

/-!
# Duplications after removals

A duplication can be asked about its copies at any time, also when it has been removed. What it
pushed is a matter of record: edits kill contexts and values and redirect pops, but no edit changes
who pushed a value, what is known about it, or how many values a context popped. So the copies of a
duplication stay its copies and keep the content of the value that was popped for them.

The value that a duplication names as their source is another matter. When a neighbouring
duplication is taken out, the source is replaced by what that one copied. It is older than before
and has the same origin, which is all that is promised about it.
-/

namespace ClassTrim

/-- What is settled about a value when it is pushed. -/
def ValueNode.birth (node : ValueNode) : Content × ContextId :=
  (node.content, node.pushedBy)

namespace Graph

variable {graph : Graph}

/-- A graph becomes another by edits that respect the record: no value appears or changes its
content or its producer, and a context keeps its instruction, what it pushed and how many values
it popped. New contexts push nothing. -/
structure Retains (before after : Graph) : Prop where
  values : ∀ value,
    (after.value? value).map ValueNode.birth = (before.value? value).map ValueNode.birth
  kept : ∀ {id context}, before.context? id = some context →
    ∃ changed, after.context? id = some changed ∧ changed.instruction = context.instruction ∧
      changed.pushes = context.pushes ∧ changed.pops.length = context.pops.length
  added : ∀ {id context}, before.context? id = none → after.context? id = some context →
    context.pushes = []

namespace Retains

variable {before middle after : Graph}

/-- A graph that does not change respects its record. -/
theorem refl (graph : Graph) : graph.Retains graph where
  values _ := rfl
  kept := fun {_ context} entered => ⟨context, entered, rfl, rfl, rfl⟩
  added := by
    intro id context missing entered
    cases missing.symm.trans entered

/-- Edits that respect the record may follow each other. -/
theorem trans (first : before.Retains middle) (second : middle.Retains after) :
    before.Retains after where
  values value := (second.values value).trans (first.values value)
  kept := by
    intro id context entered
    obtain ⟨changed, between, instruction, pushes, count⟩ := first.kept entered
    obtain ⟨last, found, sameInstruction, samePushes, sameCount⟩ := second.kept between
    exact ⟨last, found, sameInstruction.trans instruction, samePushes.trans pushes,
      sameCount.trans count⟩
  added := by
    intro id context missing entered
    cases between : middle.context? id with
    | none => exact second.added between entered
    | some entry =>
      obtain ⟨changed, found, -, pushes, -⟩ := second.kept between
      cases entered.symm.trans found
      exact pushes.trans (first.added missing between)

/-- Who pushed something was there before. -/
theorem exists_before (retains : before.Retains after) {id : ContextId} {changed : Context}
    (entered : after.context? id = some changed) {value : ValueId}
    (member : value ∈ changed.pushes) :
    ∃ context, before.context? id = some context ∧
      context.instruction = changed.instruction ∧ value ∈ context.pushes := by
  cases looked : before.context? id with
  | none =>
    rw [retains.added looked entered] at member
    cases member
  | some context =>
    obtain ⟨again, found, instruction, pushes, -⟩ := retains.kept looked
    cases entered.symm.trans found
    exact ⟨context, rfl, instruction.symm, pushes ▸ member⟩

/-- Instructions own the values that they owned. -/
theorem owns_iff (retains : before.Retains after) {instruction : InstructionId} {value : ValueId} :
    after.Owns instruction value ↔ before.Owns instruction value := by
  rw [Graph.owns_iff, Graph.owns_iff]
  constructor
  · rintro ⟨id, changed, entered, same, member⟩
    obtain ⟨context, looked, unchanged, listed⟩ := retains.exists_before entered member
    exact ⟨id, context, looked, unchanged.trans same, listed⟩
  · rintro ⟨id, context, entered, same, member⟩
    obtain ⟨changed, found, unchanged, pushes, -⟩ := retains.kept entered
    exact ⟨id, changed, found, unchanged.trans same, pushes ▸ member⟩

/-- Values keep their content. -/
theorem map_content (retains : before.Retains after) {value : ValueId} {node : ValueNode}
    (found : before.value? value = some node) :
    (after.value? value).map ValueNode.content = some (before.content value) := by
  have same := congrArg (Option.map Prod.fst) (retains.values value)
  rw [Option.map_map, Option.map_map, found] at same
  rw [content, found]
  exact same

end Retains

/-- The only context of an instruction pushed all that the instruction owns. -/
theorem owns_iff_mem_pushesOf (single : graph.Single) {id : ContextId} {context : Context}
    (entered : graph.context? id = some context) {value : ValueId} :
    graph.Owns context.instruction value ↔ value ∈ graph.pushesOf context.instruction := by
  rw [owns_iff, pushesOf_eq single entered]
  constructor
  · rintro ⟨place, other, looked, same, member⟩
    obtain rfl : place = id := single looked entered same
    cases looked.symm.trans entered
    exact member
  · intro member
    exact ⟨id, context, entered, rfl, member⟩

/-- A detachment respects the record. -/
theorem retains_detach (graph : Graph) (id : ContextId) : graph.Retains (graph.detach id) where
  values value := by
    cases found : graph.context? id with
    | none => rw [detach, found]
    | some context =>
      rw [value?_detach graph id context found, Option.map_map]
      rfl
  kept := by
    intro other entry looked
    obtain ⟨now, found, rfl | rfl⟩ := exists_of_change (context?_detach graph id) looked
    · exact ⟨now, found, rfl, rfl, rfl⟩
    · exact ⟨_, found, rfl, rfl, rfl⟩
  added := by
    intro other entry missing looked
    cases looked.symm.trans (none_of_change (context?_detach graph id) missing)

/-- Any number of detachments respect the record. -/
theorem retains_detachAll (contexts : List ContextId) (graph : Graph) :
    graph.Retains (contexts.foldl detach graph) := by
  induction contexts generalizing graph with
  | nil => exact .refl graph
  | cons id rest ih => exact (retains_detach graph id).trans (ih _)

/-- A replacement keeps the number of values. -/
theorem length_replaceFirst (old new : ValueId) (values : List ValueId) :
    (replaceFirst old new values).length = values.length := by
  induction values with
  | nil => rfl
  | cons value rest ih =>
    simp only [replaceFirst]
    split
    · rfl
    · rw [List.length_cons, ih, List.length_cons]

/-- A substitution respects the record: it changes which values are popped, not how many. -/
theorem retains_substitute {id : ContextId} {old new : ValueId} {changed : Graph}
    (distinct : old ≠ new) (done : graph.substitute id old new = .ok changed) :
    graph.Retains changed where
  values value := by
    rw [value?_substitute done distinct, Option.map_map]
    rfl
  kept := by
    intro other entry looked
    obtain ⟨now, found, rfl | rfl⟩ := exists_of_change (context?_substitute done) looked
    · exact ⟨now, found, rfl, rfl, rfl⟩
    · exact ⟨_, found, rfl, rfl, length_replaceFirst old new entry.pops⟩
  added := by
    intro other entry missing looked
    cases looked.symm.trans (none_of_change (context?_substitute done) missing)

/-- Giving all takers of a value another one respects the record. -/
theorem retains_rewire {old new : ValueId} (distinct : old ≠ new) {takers : List ContextId}
    {changed : Graph} (done : graph.rewire old new takers = .ok changed) :
    graph.Retains changed := by
  induction takers generalizing graph with
  | nil =>
    cases done
    exact .refl _
  | cons taker rest ih =>
    simp only [rewire] at done
    split at done
    · cases done
    · next substituted => exact (retains_substitute distinct substituted).trans (ih done)

/-- A new context that only pops respects the record. -/
theorem retains_take (graph : Graph) (instruction : Instruction) (frame : Nat) (value : ValueId) :
    graph.Retains (graph.take instruction frame value) where
  values other := by
    rw [value?_take, Option.map_map]
    rfl
  kept := fun {_ context} looked => ⟨context, context?_take_of_some looked, rfl, rfl, rfl⟩
  added := by
    intro other entry missing looked
    rcases context?_take_cases looked with rfl | old
    · rfl
    · cases missing.symm.trans old

/-- A duplication names each of two values as the copy beside the other, and one source of both,
which is neither of them and has their origin. -/
structure Twins (graph : Graph) (duplication : Instruction) (source value other : ValueId) :
    Prop where
  copied : graph.copied duplication value = .ok source
  copiedOther : graph.copied duplication other = .ok source
  beside : graph.otherCopy duplication value = .ok other
  besideOther : graph.otherCopy duplication other = .ok value
  distinct : other ≠ value
  apart : source ≠ value
  apartOther : source ≠ other
  origin : graph.origin value = graph.origin source
  originOther : graph.origin other = graph.origin source

/-- Each of two copies stands beside the other. -/
theorem Twins.symm {duplication : Instruction} {source value other : ValueId}
    (twins : graph.Twins duplication source value other) :
    graph.Twins duplication source other value :=
  ⟨twins.copiedOther, twins.copied, twins.besideOther, twins.beside, twins.distinct.symm,
    twins.apartOther, twins.apart, twins.originOther, twins.origin⟩

/-- Asked for another value, a duplication answers neither question. -/
theorem questions_of_not_owns {duplication : Instruction} {value : ValueId}
    (foreign : ¬graph.Owns duplication.id value) :
    ∃ breach, graph.copied duplication value = .error (.contractViolation breach) ∧
      graph.otherCopy duplication value = .error (.contractViolation breach) := by
  obtain ⟨breach, objects⟩ := ownContext_of_not_owns foreign
  exact ⟨breach, by rw [Graph.copied, objects], by rw [otherCopy, objects]⟩

namespace Traceable

variable {asked : Instruction} {id : ContextId} {context : Context} {value : ValueId}

/-- An instruction finds the context in which it pushed a value. -/
theorem ownContext_eq (traceable : graph.Traceable) (entered : graph.context? id = some context)
    (same : context.instruction = asked.id) (member : value ∈ context.pushes) :
    graph.ownContext asked value = .ok (id, context) := by
  obtain ⟨node, found, rfl⟩ := traceable.pushed entered member
  simp [ownContext, found, entered, same, member]

/-- What a duplication pushed are twins. -/
theorem twins (traceable : graph.Traceable) (entered : graph.context? id = some context)
    (same : context.instruction = asked.id) {source first second : ValueId}
    (pops : context.pops = [source]) (pushes : context.pushes = [first, second])
    (distinct : first ≠ second) : graph.Twins asked source first second := by
  have firstPushed : first ∈ context.pushes := by simp [pushes]
  have secondPushed : second ∈ context.pushes := by simp [pushes]
  have copying : context.duplication = true := traceable.pairing entered (by simp [pushes])
  have older : ∀ {value}, value ∈ context.pushes → source < value :=
    fun {value} member => traceable.ordered entered source (by simp [pops]) value member
  have origin : ∀ {value}, value ∈ context.pushes →
      graph.origin value = graph.origin source := by
    intro value member
    obtain ⟨node, found, rfl⟩ := traceable.pushed entered member
    have made : graph.producer? value = some context := by simp [producer?, found, entered]
    rw [traceable.origin_eq value, source?_eq_head? made copying, pops]
    rfl
  have ownFirst := traceable.ownContext_eq entered same firstPushed
  have ownSecond := traceable.ownContext_eq entered same secondPushed
  exact
    { copied := by simp only [Graph.copied, ownFirst, pops]
      copiedOther := by simp only [Graph.copied, ownSecond, pops]
      beside := by simp only [otherCopy, ownFirst, pushes, if_true]
      besideOther := by simp only [otherCopy, ownSecond, pushes, if_neg distinct.symm, if_true]
      distinct := distinct.symm
      apart := Nat.ne_of_lt (older firstPushed)
      apartOther := Nat.ne_of_lt (older secondPushed)
      origin := origin firstPushed
      originOther := origin secondPushed }

end Traceable

end Graph

/-- A duplication makes two of the content that it pops. -/
theorem Simulation.results_of_isDuplication {op : Op} (copies : op.isDuplication = true)
    (locals : Locals) (content : Content) :
    results op locals [content] = [content, content] := by
  cases op with
  | dup | dup2 => rfl
  | _ => cases copies

/-- A run leaves one context of each duplication. It popped one value, and pushed two values with
the content of that one. -/
theorem Simulation.exists_duplicated {frame : Frame} {body : Body} {simulation : Simulation}
    (fresh : frame.stack = []) (ran : Simulation.run frame body = .ok simulation)
    {duplication : Instruction} (member : duplication ∈ body.instructions)
    (copies : duplication.op.isDuplication = true) :
    ∃ id context popped original first second, simulation.graph.context? id = some context ∧
      context.instruction = duplication.id ∧ context.pops = [popped] ∧
      context.pushes = [first, second] ∧ simulation.graph.popsOf duplication.id = [popped] ∧
      simulation.graph.pushesOf duplication.id = [first, second] ∧
      simulation.graph.value? popped = some original ∧
      ∀ copy ∈ context.pushes, simulation.graph.content copy = original.content := by
  have recorded := Recorded.run fresh ran
  have single : simulation.graph.Single := recorded.lists.single
  obtain ⟨id, context, entered, records⟩ := recorded.lists.exists_context member
  have popCount := records.length_pops
  have pushCount := records.length_pushes
  rw [Op.effect_of_isDuplication copies] at popCount pushCount
  obtain ⟨popped, pops⟩ := List.length_eq_one_iff.mp popCount
  obtain ⟨first, second, pushes⟩ := List.length_eq_two.mp pushCount
  have popsOf : simulation.graph.popsOf duplication.id = [popped] := by
    rw [← records.same, Graph.popsOf_eq single entered, pops]
  have pushesOf : simulation.graph.pushesOf duplication.id = [first, second] := by
    rw [← records.same, Graph.pushesOf_eq single entered, pushes]
  obtain ⟨original, present, -⟩ := recorded.mirrored.linked.popped entered
    (recorded.mirrored.alive entered) (pops ▸ List.mem_singleton_self popped)
  have content : simulation.graph.content popped = original.content := by
    rw [Graph.content, present]
    rfl
  obtain ⟨locals, made⟩ := (Recorded.founded fresh ran).of_mem member
  rw [List.forall₂_eq_eq_eq, Graph.contentsPopped, Graph.contentsPushed, popsOf, pushesOf,
    List.map_singleton, results_of_isDuplication copies, content] at made
  obtain ⟨firstMade, secondMade⟩ : original.content = simulation.graph.content first ∧
      original.content = simulation.graph.content second := by
    simpa using made
  refine ⟨id, context, popped, original, first, second, entered, records.same, pops, pushes, popsOf,
    pushesOf, present, ?_⟩
  rw [pushes]
  intro copy listed
  rcases List.mem_pair.mp listed with rfl | rfl
  · exact firstMade.symm
  · exact secondMade.symm

namespace Session

variable {session next : Session}

/-- Every edit respects the record. -/
theorem Move.retains (move : session.Move next) (traceable : session.graph.Traceable) :
    session.graph.Retains next.graph := by
  cases move with
  | delete => exact Graph.retains_detachAll _ _
  | collapse _ _ known done =>
    have older := (traceable.lt_and_origin_eq_of_copies known).1
    exact (Graph.retains_rewire (Nat.ne_of_gt older) done).trans (Graph.retains_detach _ _)
  | discard => exact Graph.retains_take _ _ _ _

/-- Whatever was called on a session, its graph can be traced and holds the record of the run. -/
theorem Called.retains {frame : Frame} {body : Body} {simulation : Simulation}
    (called : Called body simulation session) (fresh : frame.stack = [])
    (ran : Simulation.run frame body = .ok simulation) :
    session.graph.Traceable ∧ simulation.graph.Retains session.graph := by
  induction called with
  | start =>
    have attained : simulation.Attained := .runInstructions (.start fresh) ran
    exact ⟨attained.traceable.graph, .refl _⟩
  | remove target _ ih =>
    have moved : ∀ {session next : Session}, session.Move next →
        session.graph.Traceable ∧ simulation.graph.Retains session.graph →
          next.graph.Traceable ∧ simulation.graph.Retains next.graph :=
      fun move held => ⟨(move.labelled ⟨held.1, rfl⟩).traceable, held.2.trans (move.retains held.1)⟩
    obtain ⟨settled, kept, ⟨fault, failed⟩ | succeeded⟩ := exists_settled_remove target moved ih
    · rw [failed]
      exact kept
    · rw [succeeded]
      exact kept
  | renew _ ih => exact ih

/-- What a duplication pushed in the run are twins after any removals, and have the content of what
it popped in the run. -/
theorem Called.exists_twins {frame : Frame} {body : Body} {simulation : Simulation}
    (called : Called body simulation session) (fresh : frame.stack = [])
    (ran : Simulation.run frame body = .ok simulation) {duplication : Instruction}
    (member : duplication ∈ body.instructions) (copies : duplication.op.isDuplication = true)
    {value : ValueId} (pushed : value ∈ simulation.graph.pushesOf duplication.id) :
    ∃ source other popped original, session.graph.Twins duplication source value other ∧
      simulation.graph.popsOf duplication.id = [popped] ∧
      simulation.graph.value? popped = some original ∧
      (session.graph.value? value).map ValueNode.content = some original.content ∧
      (session.graph.value? other).map ValueNode.content = some original.content := by
  obtain ⟨traceable, retains⟩ := called.retains fresh ran
  have linked := (Simulation.Recorded.run fresh ran).mirrored.linked
  obtain ⟨id, context, popped, original, first, second, entered, same, pops, pushes, popsOf,
    pushesOf, present, contents⟩ := Simulation.exists_duplicated fresh ran member copies
  obtain ⟨changed, still, instruction, samePushes, count⟩ := retains.kept entered
  obtain ⟨source, changedPops⟩ : ∃ source, changed.pops = [source] :=
    List.length_eq_one_iff.mp (by rw [count, pops, List.length_singleton])
  have distinct : first ≠ second := by
    simpa [pushes] using linked.pushesDistinct entered
  have twins := traceable.twins still (instruction.trans same) changedPops
    (samePushes.trans pushes) distinct
  have contentKept : ∀ copy ∈ context.pushes,
      (session.graph.value? copy).map ValueNode.content = some original.content := by
    intro copy listed
    obtain ⟨node, found, -⟩ := linked.pushed entered listed
    rw [retains.map_content found, contents copy listed]
  have firstKept := contentKept first (by simp [pushes])
  have secondKept := contentKept second (by simp [pushes])
  rw [pushesOf] at pushed
  rcases List.mem_pair.mp pushed with rfl | rfl
  · exact ⟨source, second, popped, original, twins, popsOf, present, firstKept, secondKept⟩
  · exact ⟨source, first, popped, original, twins.symm, popsOf, present, secondKept, firstKept⟩

/-- Duplications answer exactly for what they pushed. After any removals every duplication of the
body that was run, whether it is still there or not, objects to the values of others. For one of
its copies it names the other copy, which names it in turn, and a source of both that is neither
and has their origin; and both copies have the content of the value that it popped in the run. -/
theorem Called.duplications_answer {frame : Frame} {body : Body} {simulation : Simulation}
    (called : Called body simulation session) (fresh : frame.stack = [])
    (ran : Simulation.run frame body = .ok simulation) {duplication : Instruction}
    (member : duplication ∈ body.instructions) (copies : duplication.op.isDuplication = true)
    (value : ValueId) :
    (session.graph.Owns duplication.id value ↔
      value ∈ simulation.graph.pushesOf duplication.id) ∧
    (value ∉ simulation.graph.pushesOf duplication.id → ∃ breach,
      session.graph.copied duplication value = .error (.contractViolation breach) ∧
        session.graph.otherCopy duplication value = .error (.contractViolation breach)) ∧
    (value ∈ simulation.graph.pushesOf duplication.id → ∃ source other popped original,
      session.graph.Twins duplication source value other ∧
        simulation.graph.popsOf duplication.id = [popped] ∧
        simulation.graph.value? popped = some original ∧
        (session.graph.value? value).map ValueNode.content = some original.content ∧
        (session.graph.value? other).map ValueNode.content = some original.content) := by
  obtain ⟨traceable, retains⟩ := called.retains fresh ran
  have recorded := Simulation.Recorded.run fresh ran
  have single : simulation.graph.Single := recorded.lists.single
  obtain ⟨id, context, entered, records⟩ := recorded.lists.exists_context member
  have owns : session.graph.Owns duplication.id value ↔
      value ∈ simulation.graph.pushesOf duplication.id := by
    rw [retains.owns_iff, ← records.same]
    exact Graph.owns_iff_mem_pushesOf single entered
  refine ⟨owns, fun foreign => Graph.questions_of_not_owns (owns.not.mpr foreign), fun pushed => ?_⟩
  exact called.exists_twins fresh ran member copies pushed

/-- Removing the last store takes out the first duplication. The second one popped a copy of the
constant in the run and now names the constant as its source; its own copies are what they were,
and the first duplication still objects to them. -/
theorem duplications_answer_twofold :
    ∃ simulation original, Simulation.run (.empty 0 3) twofold = .ok simulation ∧
      simulation.graph.popsOf 2 = [2] ∧ simulation.graph.value? 2 = some original ∧
      ((start twofold simulation).remove 5).2.graph.Twins ⟨2, 3, .dup⟩ 0 4 3 ∧
      (((start twofold simulation).remove 5).2.graph.value? 4).map ValueNode.content =
        some original.content ∧
      ∃ breach, ((start twofold simulation).remove 5).2.graph.copied ⟨1, 2, .dup⟩ 4 =
        .error (.contractViolation breach) := by
  have path : ∃ simulation, Simulation.run (.empty 0 3) twofold = .ok simulation ∧
      simulation.graph.pushesOf 1 = [1, 2] ∧ simulation.graph.pushesOf 2 = [3, 4] ∧
      simulation.graph.popsOf 2 = [2] ∧
      ((start twofold simulation).remove 5).2.graph.copied ⟨2, 3, .dup⟩ 4 = .ok 0 ∧
      ((start twofold simulation).remove 5).2.graph.otherCopy ⟨2, 3, .dup⟩ 4 = .ok 3 :=
    ⟨_, rfl, rfl, rfl, rfl, by cbv, by cbv⟩
  obtain ⟨simulation, ran, pushesFirst, pushesSecond, pops, copied, beside⟩ := path
  have called : Called twofold simulation ((start twofold simulation).remove 5).2 :=
    .remove 5 .start
  obtain ⟨-, objects, -⟩ := called.duplications_answer rfl ran
    (show ⟨1, 2, .dup⟩ ∈ twofold.instructions by decide) rfl 4
  obtain ⟨-, -, answers⟩ := called.duplications_answer rfl ran
    (show ⟨2, 3, .dup⟩ ∈ twofold.instructions by decide) rfl 4
  obtain ⟨breach, refused, -⟩ := objects (by simp [pushesFirst])
  obtain ⟨source, other, popped, original, twins, popsOf, present, content, -⟩ :=
    answers (by simp [pushesSecond])
  obtain rfl : popped = 2 := by simpa [pops] using popsOf.symm
  obtain rfl : source = 0 := Except.ok.inj (twins.copied.symm.trans copied)
  obtain rfl : other = 3 := Except.ok.inj (twins.beside.symm.trans beside)
  exact ⟨simulation, original, ran, pops, present, twins, content, breach, refused⟩

end Session

end ClassTrim
