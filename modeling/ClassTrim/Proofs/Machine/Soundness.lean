import ClassTrim.Proofs.Machine.Kinds
import ClassTrim.Proofs.Machine.Linear
import ClassTrim.Proofs.Simulation.Mirror
import ClassTrim.Simulation.Run

/-!
# What the simulation knows is so

A linear run and the simulation go through a body side by side. Every value of the provenance
graph stands for the cell that the run made at the same time, so the two stacks hold the same
values in the same order; and whatever the simulation knows about a value, or about a local
slot, holds of the cell. What is known also fits the type that the value is tagged with, which
is why a load that checks the type of a slot only cannot pass on a constant of another type.

An invariant carries this through: it is stated for a simulation and a snapshot, one
instruction preserves it whatever the run makes, and so does every part of a body.
-/

namespace ClassTrim

open Linear
open Machine (Value)

namespace AbstractValue

/-- The concrete value that is known. -/
def meaning? : AbstractValue → Option Value
  | .unknown => none
  | .null => some .null
  | .constant literal => some (.constant literal)

/-- The type that a known value is tagged with. -/
def type? : AbstractValue → Option StackType
  | .unknown => none
  | .null => some .null
  | .constant literal => some literal.type

end AbstractValue

namespace Content

/-- What is known about a value agrees with the type of the value. -/
def Tagged (content : Content) : Prop :=
  ∀ type, content.value.type? = some type → content.type = type

/-- A cell is as the simulation says. -/
structure Describes (content : Content) (cell : Cell) : Prop where
  kind : cell.kind = content.type.kind
  value : ∀ known, content.value.meaning? = some known → cell.value = known
  tagged : content.Tagged

/-- Nothing is known of an unknown value that its type could contradict. -/
theorem tagged_unknown (type : StackType) : (unknown type).Tagged := by
  intro known same
  cases same

/-- A cell of the right kind is as an unknown value. -/
theorem Describes.unknown {type : StackType} {cell : Cell} (same : cell.kind = type.kind) :
    (Content.unknown type).Describes cell where
  kind := same
  value := by
    intro known same
    cases same
  tagged := tagged_unknown type

/-- A constant is described by itself. -/
theorem Describes.ofConstant (literal : Constant) :
    (Content.ofConstant literal).Describes (.ofConstant literal) where
  kind := rfl
  value := by
    intro known same
    exact Option.some.inj same
  tagged := by
    intro type same
    exact Option.some.inj same

/-- A cell that is described by a constant holds the constant, under the kind of the
constant. -/
theorem Describes.eq_ofConstant {content : Content} {cell : Cell} {literal : Constant}
    (described : content.Describes cell) (known : content.value = .constant literal) :
    cell = .ofConstant literal := by
  have value : cell.value = .constant literal := described.value _ (by rw [known]; rfl)
  have type : content.type = literal.type := described.tagged _ (by rw [known]; rfl)
  have kind : cell.kind = literal.type.kind := by rw [described.kind, type]
  cases cell
  simp_all [Cell.ofConstant]

end Content

/-- A known integer is that constant. -/
theorem AbstractValue.int?_eq_some {value : AbstractValue} {number : Int32}
    (known : value.int? = some number) : value = .constant (.int number) := by
  unfold AbstractValue.int? at known
  split at known
  · rw [Option.some.inj known]
  · cases known

/-- A known long is that constant. -/
theorem AbstractValue.long?_eq_some {value : AbstractValue} {number : Int64}
    (known : value.long? = some number) : value = .constant (.long number) := by
  unfold AbstractValue.long? at known
  split at known
  · rw [Option.some.inj known]
  · cases known

namespace Linear

/-- The cells of a list are as the simulation says. -/
abbrev Described (contents : List Content) (cells : List Cell) : Prop :=
  List.Forall₂ Content.Describes contents cells

/-- A cell of which an integer is known holds it. -/
theorem number?_int {content : Content} {cell : Cell} {number : Int32}
    (described : content.Describes cell) (known : content.value.int? = some number) :
    cell.number? .int = some number.toInt := by
  rw [described.eq_ofConstant (AbstractValue.int?_eq_some known)]
  rfl

/-- A cell of which a long is known holds it. -/
theorem number?_long {content : Content} {cell : Cell} {number : Int64}
    (described : content.Describes cell) (known : content.value.long? = some number) :
    cell.number? .long = some number.toInt := by
  rw [described.eq_ofConstant (AbstractValue.long?_eq_some known)]
  rfl

section Folding

variable {operation : ArithOp} {right : Content} {left : List Content} {operands : List Cell}

/-- Negation has one operand, all other arithmetic has two. -/
theorem Described.arity (described : Described (right :: left) operands)
    (enough : left.length + 1 = operation.operands) :
    ∃ top, right.Describes top ∧
      (operation = .neg ∧ left = [] ∧ operands = [top] ∨
        operation ≠ .neg ∧ ∃ other below, left = [other] ∧ other.Describes below ∧
          operands = [top, below]) := by
  obtain ⟨top, below, describedTop, describedBelow, rfl⟩ :=
    List.forall₂_cons_left_iff.mp described
  refine ⟨top, describedTop, ?_⟩
  by_cases negates : operation = .neg
  · subst negates
    have alone : left = [] := List.length_eq_zero_iff.mp (Nat.succ.inj enough)
    subst alone
    cases describedBelow
    exact .inl ⟨rfl, rfl, rfl⟩
  · have two : operation.operands = 2 := by cases operation <;> first | rfl | contradiction
    obtain ⟨other, rfl⟩ := List.length_eq_one_iff.mp (Nat.succ.inj (enough.trans two))
    obtain ⟨cell, none, describedOther, rest, rfl⟩ := List.forall₂_cons_left_iff.mp describedBelow
    cases rest
    exact .inr ⟨negates, other, cell, rfl, describedOther, rfl⟩

/-- If the operands are known and the result is a word, the run has that integer. -/
theorem integral?_of_int {first second : Int} {number : Int32}
    (numbers : numbers? operation .int operands = some (first, second))
    (computed : Integers.compute 32 operation first second = some number.toInt) :
    integral? operation .int operands = some (some (.int number)) := by
  simp [integral?, numbers, computed]

/-- If the operands are known and the result is a word, the run has that long. -/
theorem integral?_of_long {first second : Int} {number : Int64}
    (numbers : numbers? operation .long operands = some (first, second))
    (computed : Integers.compute 64 operation first second = some number.toInt) :
    integral? operation .long operands = some (some (.long number)) := by
  simp [integral?, numbers, computed]

/-- The folded result of an `int` operation is the result that a run has. -/
theorem integral?_int {number : Int32} (described : Described (right :: left) operands)
    (enough : left.length + 1 = operation.operands)
    (folded : Simulation.foldIntValues operation (left.head?.map Content.value) right.value =
      some number) :
    integral? operation .int operands = some (some (.int number)) := by
  obtain ⟨top, describedTop, unary | binary⟩ := described.arity enough
  · obtain ⟨rfl, rfl, rfl⟩ := unary
    obtain ⟨second, known, result⟩ := Option.bind_eq_some_iff.mp folded
    have computed := Integers.map_foldInt .neg 0 second
    rw [show Simulation.foldInt .neg 0 second = some number from result] at computed
    have numbers : numbers? .neg .int [top] = some (0, second.toInt) := by
      simp [numbers?, number?_int describedTop known]
    exact integral?_of_int numbers computed.symm
  · obtain ⟨binary, other, below, rfl, describedOther, rfl⟩ := binary
    obtain ⟨second, known, folded⟩ := Option.bind_eq_some_iff.mp folded
    rw [if_neg binary] at folded
    obtain ⟨first, knownFirst, result⟩ := Option.bind_eq_some_iff.mp folded
    have computed := Integers.map_foldInt operation first second
    rw [result] at computed
    have numbers : numbers? operation .int [top, below] = some (first.toInt, second.toInt) := by
      simp [numbers?, number?_int describedTop known, number?_int describedOther knownFirst]
    exact integral?_of_int numbers computed.symm

/-- The folded result of a `long` operation is the result that a run has. -/
theorem integral?_long {number : Int64} (described : Described (right :: left) operands)
    (enough : left.length + 1 = operation.operands)
    (folded : Simulation.foldLongValues operation (left.head?.map Content.value) right.value =
      some number) :
    integral? operation .long operands = some (some (.long number)) := by
  obtain ⟨top, describedTop, unary | binary⟩ := described.arity enough
  · obtain ⟨rfl, rfl, rfl⟩ := unary
    obtain ⟨second, known, result⟩ := Option.bind_eq_some_iff.mp folded
    have computed := Integers.map_foldLong .neg 0 second rfl
    rw [show Simulation.foldLong .neg 0 second = some number from result] at computed
    have numbers : numbers? .neg .long [top] = some (0, second.toInt) := by
      simp [numbers?, number?_long describedTop known]
    exact integral?_of_long numbers computed.symm
  · obtain ⟨binary, other, below, rfl, describedOther, rfl⟩ := binary
    unfold Simulation.foldLongValues at folded
    -- The count of a shift is an `int`, so shifts find their numbers elsewhere.
    cases shifts : operation.isShift with
    | true =>
      rw [if_pos shifts] at folded
      obtain ⟨count, known, folded⟩ := Option.bind_eq_some_iff.mp folded
      obtain ⟨first, knownFirst, result⟩ := Option.bind_eq_some_iff.mp folded
      have computed := Integers.map_foldLongShift operation first count shifts
      rw [result] at computed
      have numbers : numbers? operation .long [top, below] = some (first.toInt, count.toInt) := by
        simp [numbers?, shifts, number?_int describedTop known,
          number?_long describedOther knownFirst]
      exact integral?_of_long numbers computed.symm
    | false =>
      rw [if_neg (by simp [shifts])] at folded
      obtain ⟨second, known, folded⟩ := Option.bind_eq_some_iff.mp folded
      rw [if_neg binary] at folded
      obtain ⟨first, knownFirst, result⟩ := Option.bind_eq_some_iff.mp folded
      have computed := Integers.map_foldLong operation first second shifts
      rw [result] at computed
      have numbers : numbers? operation .long [top, below] = some (first.toInt, second.toInt) := by
        simp [numbers?, shifts, number?_long describedTop known,
          number?_long describedOther knownFirst]
      exact integral?_of_long numbers computed.symm

/-- Whatever arithmetic makes, the folded value describes it. -/
theorem describes_fold {kind : NumericKind} {cell : Cell}
    (described : Described (right :: left) operands)
    (enough : left.length + 1 = operation.operands) (declared : cell.kind = kind.type.kind)
    (exact : ∀ result, integral? operation kind operands = some result →
      result.map Value.constant = some cell.value) :
    Content.Describes ⟨kind.type, Simulation.fold operation kind (left.head?.map Content.value)
      right.value⟩ cell := by
  have constant : ∀ literal : Constant, literal.type = kind.type →
      integral? operation kind operands = some (some literal) →
      Content.Describes ⟨kind.type, .constant literal⟩ cell := by
    intro literal type known
    refine ⟨declared, ?_, ?_⟩
    · intro meaning same
      rw [← Option.some.inj same]
      exact (Option.some.inj (exact _ known)).symm
    · intro tag same
      rw [← Option.some.inj same]
      exact type.symm
  cases kind with
  | int =>
    simp only [Simulation.fold]
    cases folded : Simulation.foldIntValues operation (left.head?.map Content.value)
      right.value with
    | none => exact Content.Describes.unknown declared
    | some number => exact constant (.int number) rfl (integral?_int described enough folded)
  | long =>
    simp only [Simulation.fold]
    cases folded : Simulation.foldLongValues operation (left.head?.map Content.value)
      right.value with
    | none => exact Content.Describes.unknown declared
    | some number => exact constant (.long number) rfl (integral?_long described enough folded)
  | float | double => exact Content.Describes.unknown declared

end Folding

/-- The slots of a run are filled where those of the simulation are, and each cell is as the
simulation says. -/
def Holds (locals : Locals) (slots : Slots) : Prop :=
  ∀ place, Option.Rel (fun slot cell => slot.content.Describes cell)
    (locals.read place) (slots place)

section Slots

variable {locals : Locals} {slots : Slots}

/-- Slots that hold what the simulation says hold wide values in the same places. -/
theorem Holds.isWide (holds : Holds locals slots) (place : Nat) :
    (slots place).any (·.kind.isWide) = locals.isWideAt place := by
  have relation := holds place
  unfold Locals.isWideAt
  generalize locals.read place = slot?, slots place = cell? at relation
  cases relation with
  | none => rfl
  | some described =>
    rw [Option.any_some, Option.any_some, described.kind, StackType.isWide_kind]

/-- The same store in both keeps the slots as the simulation says. -/
theorem Holds.write (holds : Holds locals slots) (index : Nat) {slot : Slot} {cell : Cell}
    (described : slot.content.Describes cell) :
    Holds (locals.write index slot) (slots.write index cell) := by
  intro place
  simp only [Locals.read_write, Slots.write, described.kind, StackType.isWide_kind, holds.isWide]
  split
  · exact .some described
  · split
    · exact .none
    · split
      · exact .none
      · exact holds place

/-- A load makes what the simulation says, also where the slot holds nothing of its kind. -/
theorem Holds.loaded (holds : Holds locals slots) {kind : LocalKind} {index : UInt16}
    {value : Value}
    (found : ∀ cell, slots index.toNat = some cell → cell.kind = kind → value = cell.value) :
    (Simulation.loaded locals kind index).Describes ⟨value, kind⟩ := by
  have default : kind.defaultType.kind = kind := by cases kind <;> rfl
  unfold Simulation.loaded
  generalize held : locals.read index.toNat = slot?, kept : slots index.toNat = cell?
  have relation := holds index.toNat
  rw [held, kept] at relation
  cases relation with
  | none => exact .unknown default.symm
  | @some slot cell described =>
    simp only
    split
    · next fits =>
      have sameKind : cell.kind = kind := described.kind.trans (LocalKind.fits_iff.mp fits)
      have same : (⟨value, kind⟩ : Cell) = cell := by
        rw [found cell kept sameKind, ← sameKind]
      exact same ▸ described
    · exact .unknown default.symm

variable {op : Op} {contents : List Content} {operands made : List Cell}

/-- Whatever an operation makes is as the simulation says. -/
theorem described_results (holds : Holds locals slots) (described : Described contents operands)
    (enough : contents.length = op.effect.pops) (makes : Makes slots op operands made) :
    Described (Simulation.results op locals contents) made := by
  cases op with
  | aconstNull =>
    subst makes
    refine .cons ⟨rfl, ?_, ?_⟩ .nil
    · intro known same
      exact Option.some.inj same
    · intro type same
      exact Option.some.inj same
  | ldc literal =>
    subst makes
    exact .cons (.ofConstant literal) .nil
  | load kind index =>
    obtain ⟨value, rfl, found⟩ := makes
    exact .cons (holds.loaded found) .nil
  | arith operation kind =>
    obtain ⟨value, rfl, exact⟩ := makes
    cases contents with
    | nil => cases operation <;> cases enough
    | cons right left => exact .cons (describes_fold described enough rfl exact) .nil
  | dup | dup2 =>
    obtain ⟨copied, rest, rfl, rfl⟩ := makes
    obtain ⟨content, others, same, _, rfl⟩ := List.forall₂_cons_right_iff.mp described
    exact .cons same (.cons same .nil)
  | new name =>
    obtain ⟨value, rfl⟩ := makes
    exact .cons (.unknown rfl) .nil
  | field access target =>
    cases access with
    | getField | getStatic =>
      obtain ⟨value, rfl⟩ := makes
      exact .cons (.unknown rfl) .nil
    | putField | putStatic =>
      subst makes
      exact .nil
  | invoke kind target =>
    simp only [Simulation.results, Described, List.forall₂_map_left_iff]
    have same : List.Forall₂ Eq (made.map Cell.kind)
        (target.descriptor.result.toList.map StackType.kind) := List.forall₂_eq_eq_eq ▸ makes
    rw [List.forall₂_map_left_iff, List.forall₂_map_right_iff] at same
    exact (same.imp fun cell type declared => Content.Describes.unknown declared).flip
  | _ =>
    subst makes
    exact .nil

/-- Storing keeps the slots as the simulation says. -/
theorem Holds.stored {simulation : Simulation} {values : List ValueId}
    (holds : Holds simulation.frame.locals slots)
    (described : Described (values.map simulation.graph.content) operands) :
    Holds (simulation.storeResult op values).frame.locals (stored slots op operands) := by
  cases op with
  | store kind index =>
    cases values with
    | nil =>
      cases described
      exact holds
    | cons value rest =>
      obtain ⟨cell, others, same, _, rfl⟩ := List.forall₂_cons_left_iff.mp described
      exact holds.write index.toNat same
  | _ => exact holds

end Slots

/-- A snapshot of a run is as the simulation says. Every value of the graph stands for the cell
that was made at the same time. -/
structure Tracks (simulation : Simulation) (snapshot : Snapshot) : Prop where
  nodes : Described ((List.range simulation.nextValue).map simulation.graph.content) snapshot.made
  stack : List.Forall₂ (fun value cell => snapshot.made[value]? = some cell)
    simulation.frame.stack snapshot.stack
  slots : Holds simulation.frame.locals snapshot.slots

namespace Tracks

variable {simulation next : Simulation} {snapshot following : Snapshot}
  {instruction : Instruction}

/-- As many cells were made as there are values in the graph. -/
theorem length_made (tracks : Tracks simulation snapshot) :
    snapshot.made.length = simulation.nextValue := by
  have same := tracks.nodes.length_eq
  rw [List.length_map, List.length_range] at same
  exact same.symm

/-- The cell that a value stands for is as the graph says. -/
theorem describes (tracks : Tracks simulation snapshot) {value : ValueId} {cell : Cell}
    (made : snapshot.made[value]? = some cell) :
    (simulation.graph.content value).Describes cell := by
  obtain ⟨bound, same⟩ := List.getElem?_eq_some_iff.mp made
  have counted : value < ((List.range simulation.nextValue).map
      simulation.graph.content).length := tracks.nodes.length_eq ▸ bound
  have described := tracks.nodes.get counted bound
  simp only [List.get_eq_getElem, List.getElem_map, List.getElem_range, same] at described
  exact described

/-- A run begins as the simulation begins. -/
theorem enter {frame : Frame} {slots : Slots} (fresh : frame.stack = [])
    (holds : Holds frame.locals slots) : Tracks (.start frame) (.enter slots) where
  nodes := .nil
  stack := by
    rw [Simulation.start, fresh]
    exact .nil
  slots := holds

/-- The operands of an instruction are as the graph says. -/
theorem operands (tracks : Tracks simulation snapshot) (instruction : Instruction) :
    Described ((simulation.operands instruction).map simulation.graph.content)
      (snapshot.operands instruction) := by
  rw [Described, List.forall₂_map_left_iff]
  exact List.forall₂_take _ (tracks.stack.imp fun _ _ made => tracks.describes made)

/-- One instruction keeps a run as the simulation says, whatever it makes. -/
theorem step (tracks : Tracks simulation snapshot)
    (executed : simulation.Executed instruction next)
    (stepped : Step instruction snapshot following) : Tracks next following := by
  obtain ⟨enough, made, makes⟩ := stepped
  have described := tracks.operands instruction
  have count : ((simulation.operands instruction).map simulation.graph.content).length =
      instruction.op.effect.pops := by
    rw [List.length_map, Simulation.operands, List.length_take, Nat.min_eq_left executed.enough]
  have results := described_results tracks.slots described count makes
  have length : made.length = instruction.op.effect.pushes :=
    results.length_eq.symm.trans (Simulation.length_results _ _ _ count)
  have produced : simulation.products instruction =
      List.range' snapshot.made.length made.length := by
    rw [Simulation.products, length, tracks.length_made]
  refine ⟨?_, ?_, ?_⟩
  · have older : (List.range simulation.nextValue).map next.graph.content =
        (List.range simulation.nextValue).map simulation.graph.content := by
      apply List.map_congr_left
      intro value member
      exact executed.older value (List.mem_range.mp member)
    have newer : ((List.range instruction.op.effect.pushes).map
        (simulation.nextValue + ·)).map next.graph.content =
        Simulation.results instruction.op simulation.frame.locals
          ((simulation.operands instruction).map simulation.graph.content) := by
      rw [← List.range'_eq_map_range]
      exact executed.newer
    rw [executed.size, List.range_add, List.map_append, older, newer]
    exact List.rel_append tracks.nodes results
  · rw [executed.stack, produced]
    refine List.rel_append (List.forall₂_reverse_iff.mpr ?_) (List.forall₂_drop _ ?_)
    · rw [List.forall₂_iff_get]
      refine ⟨List.length_range', ?_⟩
      intro place _ bound
      simp [List.getElem?_append_right]
    · refine tracks.stack.imp ?_
      intro value cell found
      exact List.getElem?_append_left (List.getElem?_eq_some_iff.mp found).1 ▸ found
  · rw [executed.locals]
    exact tracks.slots.stored described

/-- So does every part of a body that the simulation gets through. -/
theorem walk (tracks : Tracks simulation snapshot) {instructions : List Instruction}
    (ran : simulation.runInstructions instructions = .ok next)
    (walked : Walk instructions snapshot following) : Tracks next following := by
  induction walked generalizing simulation with
  | done snapshot =>
    cases ran
    exact tracks
  | step first _ ih =>
    simp only [Simulation.runInstructions] at ran
    split at ran
    · cases ran
    · next done => exact ih (tracks.step (Simulation.executed_of_ok done) first) ran

end Tracks

end Linear

/-- Nothing is known about what the slots hold. -/
def Locals.Blank (locals : Locals) : Prop :=
  ∀ place slot, locals.read place = some slot → slot.content.value = .unknown

/-- Seeding puts unknown values into the slots. -/
theorem Locals.Blank.seed {locals last : Locals} {index : Nat} {types : List StackType}
    (blank : locals.Blank) (seeded : locals.seed index types = .ok last) : last.Blank := by
  induction types generalizing locals index with
  | nil =>
    cases seeded
    exact blank
  | cons type rest ih =>
    refine ih ?_ (seed_cons_eq_ok.mp seeded).2
    intro place slot found
    simp only [read, put, Array.getElem?_setIfInBounds] at found
    split at found
    · split at found
      · cases found
        rfl
      · cases found
    · exact blank place slot found

namespace Simulation

end Simulation

end ClassTrim
