import Mathlib.Data.List.Induction
import ClassTrim.Proofs.Machine.Kinds
import ClassTrim.Proofs.Simulation.Driven

/-!
# Slots as a history of writes

A value that is written to a slot fills the slot, and a wide value the next one as well. The slots
are updated at every write: the value is put in its place, and what it runs into is taken out. All
that is held afterwards can be told from the list of the writes, in their order. A slot holds what
was last written to it, provided that nothing was written later into the slots that this fills.

What the slots hold at first counts as written before everything else. It must not run into itself,
that is, no wide value may have an occupied slot above it; the frames in which methods begin are of
that kind, and so are the slots after any writes.
-/

namespace ClassTrim

/-- A value fills two slots if it is wide, and one otherwise. -/
theorem StackType.slots_cases (type : StackType) :
    type.isWide = true ∧ type.slots = 2 ∨ type.isWide = false ∧ type.slots = 1 := by
  cases wide : type.isWide <;> simp [slots, wide]

/-- A value written to a slot. -/
structure Write where
  index : Nat
  slot : Slot

namespace Write

variable {write other last : Write} {history : List Write}

/-- Whether the value that is written fills a slot. -/
def Fills (write : Write) (place : Nat) : Prop :=
  write.index ≤ place ∧ place < write.index + write.slot.content.type.slots

/-- Whether two values fill a slot in common. -/
def Overlaps (write other : Write) : Prop :=
  ∃ place, write.Fills place ∧ other.Fills place

/-- Two values overlap if they are written to the same slot, or if the lower one is wide and the
other is in the slot above it. -/
theorem overlaps_iff : write.Overlaps other ↔ write.index = other.index ∨
    other.index + 1 = write.index ∧ other.slot.content.type.isWide = true ∨
    write.index + 1 = other.index ∧ write.slot.content.type.isWide = true := by
  have lower := write.slot.content.type.slots_cases
  have upper := other.slot.content.type.slots_cases
  constructor
  · rintro ⟨place, ⟨low, high⟩, otherLow, otherHigh⟩
    rcases lower with ⟨wide, slots⟩ | ⟨narrow, slots⟩ <;>
      rcases upper with ⟨otherWide, otherSlots⟩ | ⟨otherNarrow, otherSlots⟩ <;>
      simp only [*, Bool.false_eq_true, and_true, and_false, or_false, false_or] <;> omega
  · rintro (same | ⟨above, wide⟩ | ⟨below, wide⟩)
    · exact ⟨write.index, ⟨le_rfl, by omega⟩, same.ge, by omega⟩
    · have two : other.slot.content.type.slots = 2 := by simpa [wide] using upper
      exact ⟨write.index, ⟨le_rfl, by omega⟩, by omega, by omega⟩
    · have two : write.slot.content.type.slots = 2 := by simpa [wide] using lower
      exact ⟨other.index, ⟨by omega, by omega⟩, le_rfl, by omega⟩

/-- Whether a write is the last one to its slot, and which ones came later. -/
structure Latest (history : List Write) (write : Write) (later : List Write) : Prop where
  split : ∃ earlier, history = earlier ++ write :: later
  last : ∀ other ∈ later, other.index ≠ write.index

/-- Whether a write is the last one to its slot, and no later one overlaps it. -/
def Stands (history : List Write) (write : Write) : Prop :=
  ∃ later, Latest history write later ∧ ∀ other ∈ later, ¬write.Overlaps other

/-- Nothing stands where nothing was written. -/
theorem not_stands_nil : ¬Stands [] write := by
  rintro ⟨later, ⟨⟨earlier, split⟩, _⟩, _⟩
  simp at split

/-- After one more write, that one stands, and of the others those that it does not overlap. -/
theorem stands_append_singleton : Stands (history ++ [last]) write ↔
    write = last ∨ Stands history write ∧ ¬write.Overlaps last := by
  constructor
  · rintro ⟨later, ⟨⟨earlier, split⟩, distinct⟩, clear⟩
    rcases List.eq_nil_or_concat later with rfl | ⟨front, final, rfl⟩
    · exact .inl (List.singleton_inj.mp (List.append_inj' split rfl).2).symm
    · rw [List.concat_eq_append] at split distinct clear
      rw [← List.cons_append, ← List.append_assoc] at split
      obtain ⟨before, same⟩ := List.append_inj' split rfl
      obtain rfl := List.singleton_inj.mp same
      rw [List.forall_mem_append, List.forall_mem_singleton] at distinct clear
      exact .inr ⟨⟨front, ⟨⟨earlier, before⟩, distinct.1⟩, clear.1⟩, clear.2⟩
  · rintro (rfl | ⟨⟨later, ⟨⟨earlier, rfl⟩, distinct⟩, clear⟩, apart⟩)
    · exact ⟨[], ⟨⟨history, rfl⟩, nofun⟩, nofun⟩
    · have elsewhere : last.index ≠ write.index :=
        fun same => apart (overlaps_iff.mpr (.inl same.symm))
      refine ⟨later ++ [last], ⟨⟨earlier, by simp⟩, ?_⟩, ?_⟩
      · exact List.forall_mem_append.mpr ⟨distinct, List.forall_mem_singleton.mpr elsewhere⟩
      · exact List.forall_mem_append.mpr ⟨clear, List.forall_mem_singleton.mpr apart⟩

end Write

namespace Locals

variable {locals : Locals}

/-- What a slot holds after a write: the value written there, or what it held before and the value
does not run into. -/
theorem read_write_eq_some_iff {write : Write} {place : Nat} {slot : Slot} :
    (locals.write write.index write.slot).read place = some slot ↔
      ⟨place, slot⟩ = write ∨
        locals.read place = some slot ∧ ¬(Write.mk place slot).Overlaps write := by
  rw [read_write, Write.overlaps_iff]
  by_cases here : place = write.index
  · rw [if_pos here, Option.some.injEq]
    constructor
    · rintro rfl
      exact .inl (by rw [here])
    · rintro (rfl | ⟨_, apart⟩)
      · rfl
      · exact absurd (.inl here) apart
  · have other : ¬Write.mk place slot = write := fun same => here (same ▸ rfl)
    rw [if_neg here, eq_false other, false_or]
    split
    · next above =>
      simp only [Bool.and_eq_true, decide_eq_true_eq] at above
      constructor
      · exact nofun
      · rintro ⟨_, apart⟩
        exact absurd (.inr (.inl ⟨above.2.symm, above.1⟩)) apart
    · next notAbove =>
      simp only [Bool.and_eq_true, decide_eq_true_eq] at notAbove
      split
      · next cut =>
        simp only [Bool.and_eq_true, decide_eq_true_eq] at cut
        constructor
        · exact nofun
        · rintro ⟨held, apart⟩
          have wide : slot.content.type.isWide = true := by simpa [isWideAt, held] using cut.2
          exact absurd (.inr (.inr ⟨cut.1, wide⟩)) apart
      · next uncut =>
        simp only [Bool.and_eq_true, decide_eq_true_eq] at uncut
        refine ⟨fun held => ⟨held, ?_⟩, And.left⟩
        rintro (same | ⟨above, wide⟩ | ⟨below, wide⟩)
        · exact here same
        · exact notAbove ⟨wide, above.symm⟩
        · exact uncut ⟨below, by simpa [isWideAt, held] using wide⟩

/-- No wide value has an occupied slot above it. -/
def Spaced (locals : Locals) : Prop :=
  ∀ place, locals.isWideAt place = true → locals.read (place + 1) = none

/-- In terms of what is held, values do not run into each other. -/
theorem spaced_iff : locals.Spaced ↔ ∀ place slot above, locals.read place = some slot →
    locals.read (place + 1) = some above → slot.content.type.isWide = false := by
  constructor
  · intro spaced place slot above held next
    rw [Bool.eq_false_iff]
    intro wide
    have empty := spaced place (by rw [isWideAt, held]; exact wide)
    rw [empty] at next
    cases next
  · intro apart place wide
    obtain ⟨slot, held, isWide⟩ := (Option.any_eq_true _ _).mp wide
    rw [Option.eq_none_iff_forall_ne_some]
    intro above next
    rw [apart place slot above held next] at isWide
    cases isWide

/-- A write leaves the slot above a wide value free, the new one and the old ones alike. -/
theorem Spaced.write (spaced : locals.Spaced) (write : Write) :
    (locals.write write.index write.slot).Spaced := by
  rw [spaced_iff] at spaced ⊢
  intro place slot above held next
  rw [Bool.eq_false_iff]
  intro wide
  rcases read_write_eq_some_iff.mp held with rfl | ⟨old, clear⟩ <;>
    rcases read_write_eq_some_iff.mp next with same | ⟨oldNext, nextClear⟩
  · simpa using congrArg Write.index same
  · exact nextClear (Write.overlaps_iff.mpr (.inr (.inl ⟨rfl, wide⟩)))
  · subst same
    exact clear (Write.overlaps_iff.mpr (.inr (.inr ⟨rfl, wide⟩)))
  · rw [spaced place slot above old oldNext] at wide
    cases wide

/-- What the first slots hold, as if it had been written from the bottom upwards. -/
def contents (locals : Locals) (count : Nat) : List Write :=
  (List.range count).filterMap fun index => (locals.read index).map (Write.mk index)

/-- Spaced contents do not overlap, so all of them stand. -/
theorem Spaced.stands_contents (spaced : locals.Spaced) (count place : Nat) (slot : Slot) :
    Write.Stands (locals.contents count) ⟨place, slot⟩ ↔
      place < count ∧ locals.read place = some slot := by
  induction count with
  | zero => simp [contents, Write.not_stands_nil]
  | succ count ih =>
    cases top : locals.read count with
    | none =>
      have same : locals.contents (count + 1) = locals.contents count := by
        simp [contents, List.range_succ, top]
      rw [same, ih]
      refine and_congr_left fun held => ?_
      have below : place ≠ count := by
        rintro rfl
        rw [top] at held
        cases held
      omega
    | some held =>
      have more : locals.contents (count + 1) = locals.contents count ++ [⟨count, held⟩] := by
        simp [contents, List.range_succ, top]
      rw [more, Write.stands_append_singleton, ih, Write.mk.injEq, Write.overlaps_iff]
      constructor
      · rintro (⟨rfl, rfl⟩ | ⟨⟨below, found⟩, _⟩)
        · exact ⟨Nat.lt_succ_self _, top⟩
        · exact ⟨Nat.lt_succ_of_lt below, found⟩
      · rintro ⟨within, found⟩
        by_cases last : place = count
        · subst last
          exact .inl ⟨rfl, Option.some.inj (found.symm.trans top)⟩
        · refine .inr ⟨⟨by omega, found⟩, ?_⟩
          rintro (same | ⟨above, _⟩ | ⟨below, wide⟩)
          · exact last same
          · simp only at above
            omega
          · rw [← show place + 1 = count from below] at top
            rw [spaced_iff.mp spaced place slot held found top] at wide
            cases wide

/-- A slot that holds something is one of the frame. -/
theorem lt_size_of_read {place : Nat} {slot : Slot} (held : locals.read place = some slot) :
    place < locals.slots.size := by
  by_contra outside
  have missing : locals.slots[place]? = none := Array.getElem?_eq_none (Nat.le_of_not_lt outside)
  simp [read, missing] at held

/-- Writes values one after the other. -/
def writeAll (locals : Locals) (writes : List Write) : Locals :=
  writes.foldl (fun held write => held.write write.index write.slot) locals

/-- What the slots hold at first and what is written later, in order. -/
def history (locals : Locals) (writes : List Write) : List Write :=
  locals.contents locals.slots.size ++ writes

/-- Slots hold what stands. -/
theorem Spaced.read_writeAll_iff (spaced : locals.Spaced) (writes : List Write) (place : Nat)
    (slot : Slot) :
    (locals.writeAll writes).read place = some slot ↔
      Write.Stands (locals.history writes) ⟨place, slot⟩ := by
  -- From the last write backwards: what it leaves is what it does to the history.
  induction writes using List.reverseRecOn with
  | nil =>
    rw [history, List.append_nil, spaced.stands_contents]
    exact ⟨fun held => ⟨lt_size_of_read held, held⟩, And.right⟩
  | append_singleton front last ih =>
    have unfolded : locals.writeAll (front ++ [last]) =
        (locals.writeAll front).write last.index last.slot := by
      simp [writeAll]
    have longer : locals.history (front ++ [last]) = locals.history front ++ [last] := by
      simp [history]
    rw [unfolded, read_write_eq_some_iff, ih, longer, Write.stands_append_singleton]

/-- Any writes leave the slots above wide values free. -/
theorem Spaced.writeAll (spaced : locals.Spaced) (writes : List Write) :
    (locals.writeAll writes).Spaced := by
  induction writes generalizing locals with
  | nil => exact spaced
  | cons first rest ih => exact ih (spaced.write first)

/-- Empty slots are spaced. -/
theorem spaced_empty (count : Nat) : (empty count).Spaced := by
  intro place _
  simp only [read, empty, Array.getElem?_replicate]
  split <;> rfl

/-- What a slot holds was put there or was there before. -/
theorem cases_of_read_put {index place : Nat} {slot : Option Slot} {found : Slot}
    (held : (locals.put index slot).read place = some found) :
    place = index ∧ slot = some found ∨ place ≠ index ∧ locals.read place = some found := by
  simp only [read, put, Array.getElem?_setIfInBounds] at held
  split at held
  · next here =>
    split at held
    · exact .inl ⟨here.symm, held⟩
    · cases held
  · next elsewhere => exact .inr ⟨Ne.symm elsewhere, held⟩

/-- Values of the given types are put above each other, each behind the last slot that the one
below it fills. -/
theorem Spaced.seed {types : List StackType} {last : Locals} {index : Nat}
    (spaced : locals.Spaced)
    (short : ∀ place slot, locals.read place = some slot →
      place + slot.content.type.slots ≤ index)
    (seeded : locals.seed index types = .ok last) : last.Spaced := by
  induction types generalizing locals index with
  | nil =>
    cases seeded
    exact spaced
  | cons type rest ih =>
    refine ih ?_ ?_ (seed_cons_eq_ok.mp seeded).2
    · rw [spaced_iff] at spaced ⊢
      intro place slot above held next
      rcases cases_of_read_put held with ⟨rfl, _⟩ | ⟨_, old⟩ <;>
        rcases cases_of_read_put next with ⟨same, _⟩ | ⟨_, oldNext⟩
      · omega
      · have beyond := short _ above oldNext
        omega
      · have reach := short place slot old
        rcases slot.content.type.slots_cases with ⟨_, two⟩ | ⟨narrow, _⟩
        · omega
        · exact narrow
      · exact spaced place slot above old oldNext
    · intro place slot held
      rcases cases_of_read_put held with ⟨rfl, given⟩ | ⟨_, old⟩
      · cases given
        exact le_rfl
      · exact (short place slot old).trans (Nat.le_add_right _ _)

end Locals

/-- The slots in which a method begins are spaced. -/
theorem Frame.spaced_forMethod (id : Nat) (owner : Option String) (method : MethodDecl)
    (frame : Frame) (framed : Frame.forMethod id owner method = .ok frame) :
    frame.locals.Spaced := by
  obtain ⟨locals, seeded, rfl⟩ := Frame.forMethod_eq_ok.mp framed
  refine (Locals.spaced_empty _).seed ?_ seeded
  intro place slot held
  simp only [Locals.read, Locals.empty, Array.getElem?_replicate] at held
  split at held <;> cases held

namespace Simulation

variable {before after : Simulation} {instruction : Instruction} {fault : Fault}

/-- What an execution writes: a store that finds a value writes it. -/
def written? (simulation : Simulation) (instruction : Instruction) : Option Write :=
  match instruction.op with
  | .store _ index =>
    simulation.frame.stack.head?.map fun value =>
      ⟨index.toNat, simulation.graph.content value, some value⟩
  | _ => none

/-- An execution that fails leaves the slots alone. -/
theorem locals_of_execute_error (failed : before.execute instruction = (.error fault, after)) :
    after.frame.locals = before.frame.locals := by
  rw [execute_eq] at failed
  split at failed
  · cases failed
    rfl
  · split at failed
    · cases failed
      rfl
    · split at failed
      · cases failed
      · cases failed
        rfl

/-- A store fails only on an empty stack. -/
theorem written?_of_execute_error (failed : before.execute instruction = (.error fault, after)) :
    before.written? instruction = none := by
  cases op : instruction.op with
  | store kind index =>
    cases stack : before.frame.stack with
    | nil => simp [written?, op, stack]
    | cons value rest =>
      have completes := execute_eq_completed before instruction (by simp [formFault?, op])
        (by simp [op, Op.needsWideTop]) (by simp [op, Op.effect, stack])
      rw [completes] at failed
      cases failed
  | _ => simp [written?, op]

/-- An execution changes the slots by what it writes and in no other way. -/
theorem locals_execute (before : Simulation) (instruction : Instruction) :
    (before.execute instruction).2.frame.locals =
      before.frame.locals.writeAll (before.written? instruction).toList := by
  rcases done : before.execute instruction with ⟨result, after⟩
  cases result with
  | error fault =>
    rw [locals_of_execute_error done, written?_of_execute_error done]
    rfl
  | ok id =>
    have executed := executed_of_ok done
    rw [executed.locals]
    cases op : instruction.op with
    | store kind index =>
      have enough := executed.enough
      cases stack : before.frame.stack with
      | nil => simp [op, Op.effect, stack] at enough
      | cons value rest =>
        simp [storeResult, written?, op, operands, Op.effect, stack, store, Locals.writeAll]
    | _ => simp [storeResult, written?, op, Locals.writeAll]

namespace Drive

/-- What an action writes. -/
def written? (drive : Drive) : Action → Option Write
  | .execute instruction => drive.simulation.written? instruction
  | .store index slot => some ⟨index, slot⟩
  | _ => none

/-- What actions write, in order. -/
def writes (drive : Drive) : List Action → List Write
  | [] => []
  | action :: rest => (drive.written? action).toList ++ (drive.act action).writes rest

/-- An action changes the slots by what it writes and by nothing else. -/
theorem locals_act (drive : Drive) (action : Action) :
    (drive.act action).simulation.frame.locals =
      drive.simulation.frame.locals.writeAll (drive.written? action).toList := by
  cases action with
  | execute instruction => exact locals_execute drive.simulation instruction
  | begin instruction => rfl
  | pop =>
    simp only [act]
    split
    · rfl
    · next value next popped =>
      obtain ⟨context, _, taken⟩ := Option.bind_eq_some_iff.mp popped
      simp only [pop?] at taken
      split at taken
      · cases taken
      · cases taken
        rfl
  | push content =>
    simp only [act]
    split <;> rfl
  | store index slot => rfl

/-- Actions change the slots by what they write and in no other way. -/
theorem locals_run (drive : Drive) (actions : List Action) :
    (drive.run actions).simulation.frame.locals =
      drive.simulation.frame.locals.writeAll (drive.writes actions) := by
  induction actions generalizing drive with
  | nil => rfl
  | cons action rest ih =>
    have unfolded : drive.run (action :: rest) = (drive.act action).run rest := rfl
    rw [unfolded, ih, locals_act, writes]
    simp only [Locals.writeAll, List.foldl_append]

end Drive

/-- What the slots of a frame hold at first and what actions write to them, in order. -/
def history (frame : Frame) (actions : List Action) : List Write :=
  frame.locals.history ((Drive.start frame).writes actions)

/-- A load succeeds on every stack. It pushes one value, of which it knows what it found. -/
theorem exists_load (before : Simulation) (id : InstructionId) (pc : Nat) (kind : LocalKind)
    (index : UInt16) :
    ∃ after node, before.execute ⟨id, pc, .load kind index⟩ = (.ok before.nextContext, after) ∧
      after.frame.stack = before.nextValue :: before.frame.stack ∧
      after.graph.value? before.nextValue = some node ∧
      node.content = loaded before.frame.locals kind index := by
  let load : Instruction := ⟨id, pc, .load kind index⟩
  have form : formFault? load = none := rfl
  have wide : load.op.needsWideTop = true → before.hasNarrowTop = false := nofun
  have enough : load.op.effect.pops ≤ before.frame.stack.length := Nat.zero_le _
  have executed := executed_completed before load form wide enough
  have size : before.nextValue < (before.completed load).nextValue := by
    rw [executed.size]
    exact Nat.lt_succ_self _
  have found := Array.getElem?_eq_getElem size
  refine ⟨before.completed load, _, execute_eq_completed before load form wide enough,
    executed.stack, found, ?_⟩
  have made : (before.completed load).graph.content before.nextValue =
      loaded before.frame.locals kind index := List.singleton_inj.mp executed.newer
  simpa [Graph.content, Graph.value?, found] using made

/-- The slots of a simulation are what a history of writes leaves of them, and this is what loads
find there. -/
structure Reflects (simulation : Simulation) (history : List Write) : Prop where
  holds : ∀ index slot, simulation.frame.locals.read index = some slot ↔
    Write.Stands history ⟨index, slot⟩
  spaced : simulation.frame.locals.Spaced
  loads : ∀ id pc kind (index : UInt16), ∃ after node,
    simulation.execute ⟨id, pc, .load kind index⟩ = (.ok simulation.nextContext, after) ∧
      after.frame.stack = simulation.nextValue :: simulation.frame.stack ∧
      after.graph.value? simulation.nextValue = some node ∧
      (∀ slot, Write.Stands history ⟨index.toNat, slot⟩ →
        kind.fits slot.content.type = true → node.content = slot.content) ∧
      ((∀ slot, Write.Stands history ⟨index.toNat, slot⟩ →
        kind.fits slot.content.type = false) → node.content = .unknown kind.defaultType)

/-- Slots are a map of intervals. Frames begin with spaced slots. From spaced slots, whatever is
executed or done by hand, every slot holds the last value that was written to it exactly if no
later write overlaps it; the slots stay spaced; and a load pushes what stands in its slot if it
fits, and an unknown value of its own default type otherwise. -/
theorem slots_reflect_writes :
    (∀ id count, (Frame.empty id count).locals.Spaced) ∧
      (∀ id owner method frame, Frame.forMethod id owner method = .ok frame →
        frame.locals.Spaced) ∧
      ∀ frame : Frame, frame.locals.Spaced → ∀ actions,
        (driven frame actions).Reflects (history frame actions) := by
  refine ⟨fun _ _ => Locals.spaced_empty _, Frame.spaced_forMethod, ?_⟩
  intro frame spaced actions
  have locals : (driven frame actions).frame.locals =
      frame.locals.writeAll ((Drive.start frame).writes actions) :=
    Drive.locals_run (Drive.start frame) actions
  have holds : ∀ index slot, (driven frame actions).frame.locals.read index = some slot ↔
      Write.Stands (history frame actions) ⟨index, slot⟩ := by
    rw [locals]
    exact spaced.read_writeAll_iff _
  refine ⟨holds, locals ▸ spaced.writeAll _, ?_⟩
  intro id pc kind index
  obtain ⟨after, node, executed, stack, found, content⟩ :=
    exists_load (driven frame actions) id pc kind index
  refine ⟨after, node, executed, stack, found, ?_, ?_⟩
  · intro slot stands fits
    rw [content, loaded, (holds _ _).mpr stands]
    exact if_pos fits
  · intro misfits
    rw [content, loaded]
    split
    · next slot held => rw [misfits slot ((holds _ _).mp held), if_neg Bool.false_ne_true]
    · rfl

/-- A narrow value is written by hand, a wide one is stored right below it, and then a narrow one
in the upper half of that. -/
def neighbours : List Action :=
  [.store 2 (.unknown .int), .execute ⟨0, 0, .ldc (.long 7)⟩, .execute ⟨1, 3, .store .long 1⟩,
    .execute ⟨2, 4, .ldc (.float 0)⟩, .execute ⟨3, 5, .store .float 2⟩]

/-- The last value stands. The wide one does not, and left nothing of the first one. -/
theorem slots_reflect_writes_neighbours :
    (history (.empty 0 4) neighbours).map Write.index = [2, 1, 2] ∧
      Write.Stands (history (.empty 0 4) neighbours) ⟨2, .ofConstant (.float 0), some 1⟩ ∧
      ∀ slot, ¬Write.Stands (history (.empty 0 4) neighbours) ⟨1, slot⟩ := by
  obtain ⟨empty, _, reflects⟩ := slots_reflect_writes
  have after := reflects (.empty 0 4) (empty 0 4) neighbours
  refine ⟨rfl, (after.holds 2 _).mp rfl, ?_⟩
  intro slot stands
  have held := (after.holds 1 slot).mpr stands
  have emptied : (driven (.empty 0 4) neighbours).frame.locals.read 1 = none := rfl
  rw [emptied] at held
  cases held

end Simulation

end ClassTrim
