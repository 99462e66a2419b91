import ClassTrim.Proofs.Retirement.Edits

/-!
# Instructions that discard a value

Where a producer with side effects stays, an instruction that takes its value and does nothing
with it is put behind it. Later steps neither delete the producer, which has side effects, nor
the discarding instruction, which pushes nothing that could be stranded; and no duplication comes
between the two. So what was inserted stays.
-/

namespace ClassTrim

/-- Whether the operation takes a value and does nothing with it. -/
def Op.isDiscard : Op → Bool
  | .pop | .pop2 => true
  | _ => false

/-- A discard pops one value and pushes none. -/
theorem Op.effect_of_isDiscard {op : Op} (discards : op.isDiscard = true) :
    op.effect = ⟨1, 0⟩ := by
  cases op <;> simp_all [isDiscard, effect]

namespace Session

variable {session next : Session} {waiting later : List ValueId} {instruction : Instruction}
  {place : ContextId} {context : Context}

/-- What is inserted to take a value, whatever its width, is a discard. -/
theorem isDiscard_discardOp (type : StackType) : (discardOp type).isDiscard = true := by
  rcases discardOp_cases type with ⟨_, op⟩ | ⟨_, op⟩ <;> rw [op] <;> rfl

/-- An instruction that discards the value of an instruction with side effects. -/
structure Guard (session : Session) (taker producer : Instruction) (value : ValueId) : Prop where
  inside : taker ∈ session.body.instructions
  member : producer ∈ session.body.instructions
  discards : taker.op.isDiscard = true
  effectful : producer.op.hasSideEffect = true
  takes : session.graph.popsOf taker.id = [value]
  pushes : value ∈ session.graph.pushesOf producer.id

/-- Whether an identity is that of an instruction that discards the value of an
instruction with side effects. -/
def Guards (session : Session) (id : InstructionId) : Prop :=
  ∃ taker producer value, taker.id = id ∧ session.Guard taker producer value

/-- Whatever has pushed a value is of a kind that pushes. -/
theorem Hosts.pushes_ne_zero (hosts : session.Hosts instruction place context) {value : ValueId}
    (pushed : value ∈ context.pushes) : instruction.op.effect.pushes ≠ 0 := by
  intro nothing
  have count := hosts.records.length_pushes
  rw [nothing] at count
  rw [List.eq_nil_of_length_eq_zero count] at pushed
  cases pushed

/-- Whatever has pushed a value is no discard. -/
theorem Hosts.not_isDiscard (hosts : session.Hosts instruction place context) {value : ValueId}
    (pushed : value ∈ context.pushes) : instruction.op.isDiscard = false := by
  apply Bool.eq_false_iff.mpr
  intro discards
  exact hosts.pushes_ne_zero pushed (by rw [Op.effect_of_isDiscard discards])

namespace Guard

variable {taker producer : Instruction} {value : ValueId}

/-- Both ends outlive the deletion of any other instruction. -/
theorem deleted (guard : session.Guard taker producer value) (sound : session.Sound)
    (deletes : session.Deletes instruction place context) (notTaker : taker ≠ instruction)
    (notProducer : producer ≠ instruction) :
    (session.deleted instruction place).Guard taker producer value := by
  have takerStays : taker ∈ (session.deleted instruction place).body.instructions :=
    (Body.mem_erase deletes.member).mpr ⟨guard.inside,
      fun same => notTaker (Body.eq_of_id_eq guard.inside deletes.member same)⟩
  have producerStays : producer ∈ (session.deleted instruction place).body.instructions :=
    (Body.mem_erase deletes.member).mpr ⟨guard.member,
      fun same => notProducer (Body.eq_of_id_eq guard.member deletes.member same)⟩
  refine ⟨takerStays, producerStays, guard.discards, guard.effectful, ?_, ?_⟩
  · rw [sound.popsOf_deleted deletes takerStays, guard.takes]
  · rw [sound.pushesOf_deleted deletes producerStays]
    exact guard.pushes

/-- Taking out a duplication redirects the copies of a value, and the value of an
instruction with side effects is no copy. -/
theorem collapsed {source released survivor : ValueId} {consumer : ContextId} {rewired : Graph}
    (guard : session.Guard taker producer value) (sound : session.Sound)
    (collapses : session.Collapses instruction place context source released survivor consumer
      rewired) :
    (session.collapsed instruction place rewired).Guard taker producer value := by
  have survives : survivor ∈ context.pushes := collapses.bypass.mem_pushes.mpr (.inr rfl)
  have pure := hasSideEffect_of_isDuplication collapses.copies
  have notTaker : taker ≠ instruction := by
    rintro rfl
    have pushesNothing := collapses.toHosts.not_isDiscard survives
    rw [guard.discards] at pushesNothing
    cases pushesNothing
  have notProducer : producer.id ≠ instruction.id := by
    intro same
    obtain rfl := Body.eq_of_id_eq guard.member collapses.member same
    rw [guard.effectful] at pure
    cases pure
  have takerStays : taker ∈ (session.collapsed instruction place rewired).body.instructions :=
    (Body.mem_erase collapses.member).mpr ⟨guard.inside,
      fun same => notTaker (Body.eq_of_id_eq guard.inside collapses.member same)⟩
  have producerStays :
      producer ∈ (session.collapsed instruction place rewired).body.instructions :=
    (Body.mem_erase collapses.member).mpr ⟨guard.member, notProducer⟩
  have apart : value ≠ survivor := by
    rintro rfl
    obtain ⟨home, entry, hosts⟩ := sound.exists_hosts guard.member
    have pushed := guard.pushes
    rw [sound.pushesOf_eq hosts] at pushed
    exact notProducer (sound.id_eq_of_mem_pushes hosts collapses.toHosts pushed survives)
  refine ⟨takerStays, producerStays, guard.discards, guard.effectful, ?_, ?_⟩
  · rw [sound.popsOf_collapsed collapses takerStays, guard.takes]
    simp [Graph.rename, apart]
  · rw [sound.pushesOf_collapsed collapses producerStays]
    exact guard.pushes

/-- Another discard, inserted elsewhere, leaves a guard in place. -/
theorem discarded {released : ValueId} (guard : session.Guard taker producer value)
    (sound : session.Sound) (discards : session.Discards instruction place context released) :
    (session.discarded instruction released).Guard taker producer value := by
  refine ⟨(Body.mem_splice discards.member).mpr (.inl guard.inside),
    (Body.mem_splice discards.member).mpr (.inl guard.member), guard.discards, guard.effectful,
    ?_, ?_⟩
  · rw [sound.popsOf_discarded discards guard.inside, guard.takes]
  · rw [sound.pushesOf_discarded discards guard.member]
    exact guard.pushes

end Guard

/-- Only the body and the graph matter. -/
theorem Guards.congr {id : InstructionId} (guards : session.Guards id)
    (sameBody : next.body = session.body) (sameGraph : next.graph = session.graph) :
    next.Guards id := by
  obtain ⟨taker, producer, value, same, guard⟩ := guards
  refine ⟨taker, producer, value, same, ?_⟩
  obtain ⟨inside, member, discards, effectful, takes, pushes⟩ := guard
  rw [← sameBody] at inside member
  rw [← sameGraph] at takes pushes
  exact ⟨inside, member, discards, effectful, takes, pushes⟩

/-- Whatever guards a value goes on to do so while a removal is under way. -/
theorem Guards.step {id : InstructionId} (guards : session.Guards id) (sound : session.Sound)
    (step : Step session waiting next later) : next.Guards id := by
  obtain ⟨taker, producer, value, rfl, guard⟩ := guards
  cases step with
  | pass => exact ⟨taker, producer, value, rfl, guard⟩
  | delete deletes pure pushed =>
    refine ⟨taker, producer, value, rfl, guard.deleted sound deletes ?_ ?_⟩
    · rintro rfl
      have pushesNothing := deletes.toHosts.not_isDiscard pushed
      rw [guard.discards] at pushesNothing
      cases pushesNothing
    · rintro rfl
      rw [guard.effectful] at pure
      cases pure
  | collapse collapses => exact ⟨taker, producer, value, rfl, guard.collapsed sound collapses⟩
  | discard discards => exact ⟨taker, producer, value, rfl, guard.discarded sound discards⟩

/-- What is inserted guards a value. -/
theorem guards_taker {released : ValueId} (sound : session.Sound)
    (discards : session.Discards instruction place context released) :
    (session.discarded instruction released).Guards (session.taker instruction released).id := by
  refine ⟨session.taker instruction released, instruction, released, rfl,
    (Body.mem_splice discards.member).mpr (.inr rfl),
    (Body.mem_splice discards.member).mpr (.inl discards.member), isDiscard_discardOp _,
    discards.effectful, sound.popsOf_taker discards, ?_⟩
  rw [sound.pushesOf_discarded discards discards.member, sound.pushesOf_eq discards.toHosts,
    discards.pushes]
  exact List.mem_singleton_self _

/-- Guards stay through any number of steps. -/
theorem Guards.steps {id : InstructionId} (guards : session.Guards id) (sound : session.Sound)
    (steps : Steps session waiting next later) : next.Guards id := by
  induction steps with
  | done => exact guards
  | next step _ ih => exact ih (guards.step sound step) (sound.step step)

end Session

end ClassTrim
