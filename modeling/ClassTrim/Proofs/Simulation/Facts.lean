import Mathlib.Data.List.Forall2
import ClassTrim.Proofs.Machine.Account
import ClassTrim.Proofs.Machine.Kinds
import ClassTrim.Proofs.Simulation.Record

/-!
# What a simulation knows

A simulation knows the type of every value, and of some values what they are. One content upholds
another if the kind is the same and nothing that was known is lost or changed. Every operation
respects this order: of operands that uphold others, and of slots that do as far as they are read,
it makes results that uphold those of the others.

Facts about the values that instructions pop and push are founded if what an instruction makes of
the facts about its operands upholds the facts about its products. The contents of a run are
founded, each being exactly what is made. Founded facts can be lost only together with the
instructions that they are about: a run of the same instructions knows all of them.
-/

namespace ClassTrim

/-- The kind is that of an earlier content, and what was known then is known still. -/
structure Content.Upholds (content fact : Content) : Prop where
  kind : content.type.kind = fact.type.kind
  value : fact.value.isKnown = true → content.value = fact.value

namespace Content.Upholds

variable {content fact older : Content}

/-- A content upholds itself. -/
theorem refl (content : Content) : content.Upholds content :=
  ⟨rfl, fun _ => rfl⟩

/-- What upholds a later fact upholds the earlier one that this upholds. -/
theorem trans (first : content.Upholds fact) (second : fact.Upholds older) :
    content.Upholds older where
  kind := first.kind.trans second.kind
  value := by
    intro known
    have same := second.value known
    rw [first.value (same ▸ known), same]

/-- Contents uphold themselves, one by one. -/
theorem refl_all (contents : List Content) : List.Forall₂ Content.Upholds contents contents :=
  List.forall₂_same.mpr fun content _ => refl content

/-- What upholds later facts, one by one, upholds the earlier ones that these uphold. -/
theorem trans_all {contents facts olds : List Content}
    (first : List.Forall₂ Content.Upholds contents facts)
    (second : List.Forall₂ Content.Upholds facts olds) :
    List.Forall₂ Content.Upholds contents olds := by
  induction first generalizing olds with
  | nil => exact second
  | cons head _ ih =>
    cases second with
    | cons next rest => exact .cons (head.trans next) (ih rest)

/-- A content fills as many slots as the fact that it upholds. -/
theorem isWide_eq (upholds : content.Upholds fact) : content.type.isWide = fact.type.isWide := by
  rw [← StackType.isWide_kind, upholds.kind, StackType.isWide_kind]

end Content.Upholds

/-- What is known about the values that an instruction pops. -/
def Graph.contentsPopped (graph : Graph) (id : InstructionId) : List Content :=
  (graph.popsOf id).map graph.content

/-- What is known about the values that an instruction pushes. -/
def Graph.contentsPushed (graph : Graph) (id : InstructionId) : List Content :=
  (graph.pushesOf id).map graph.content

namespace AbstractValue

variable {value : AbstractValue}

/-- A value that reads as an `int` is known. -/
theorem isKnown_of_int? {number : Int32} (isNumber : value.int? = some number) :
    value.isKnown = true := by
  cases value with
  | unknown | null => cases isNumber
  | constant literal => rfl

/-- A value that reads as a `long` is known. -/
theorem isKnown_of_long? {number : Int64} (isNumber : value.long? = some number) :
    value.isKnown = true := by
  cases value with
  | unknown | null => cases isNumber
  | constant literal => rfl

end AbstractValue

namespace Simulation

section Fold

variable {operation : ArithOp} {kind : NumericKind} {left leftFact : Option AbstractValue}
  {right rightFact : AbstractValue}

/-- An `int` result is computed only from operands that are known; a negation has no left one. -/
theorem isKnown_of_foldIntValues {number : Int32}
    (folded : foldIntValues operation left right = some number) :
    right.isKnown = true ∧ (operation ≠ .neg → ∃ value ∈ left, value.isKnown = true) := by
  obtain ⟨second, rightNumber, rest⟩ := Option.bind_eq_some_iff.mp folded
  refine ⟨AbstractValue.isKnown_of_int? rightNumber, fun binary => ?_⟩
  rw [if_neg binary] at rest
  obtain ⟨first, leftNumber, _⟩ := Option.bind_eq_some_iff.mp rest
  obtain ⟨value, present, isNumber⟩ := Option.bind_eq_some_iff.mp leftNumber
  exact ⟨value, present, AbstractValue.isKnown_of_int? isNumber⟩

/-- A `long` result is computed only from operands that are known; a negation has no left one. -/
theorem isKnown_of_foldLongValues {number : Int64}
    (folded : foldLongValues operation left right = some number) :
    right.isKnown = true ∧ (operation ≠ .neg → ∃ value ∈ left, value.isKnown = true) := by
  have leftKnown : ∀ first, left.bind AbstractValue.long? = some first →
      ∃ value ∈ left, value.isKnown = true := by
    intro first leftNumber
    obtain ⟨value, present, isNumber⟩ := Option.bind_eq_some_iff.mp leftNumber
    exact ⟨value, present, AbstractValue.isKnown_of_long? isNumber⟩
  unfold foldLongValues at folded
  split at folded
  · obtain ⟨count, rightNumber, rest⟩ := Option.bind_eq_some_iff.mp folded
    obtain ⟨first, leftNumber, _⟩ := Option.bind_eq_some_iff.mp rest
    exact ⟨AbstractValue.isKnown_of_int? rightNumber, fun _ => leftKnown first leftNumber⟩
  · obtain ⟨second, rightNumber, rest⟩ := Option.bind_eq_some_iff.mp folded
    refine ⟨AbstractValue.isKnown_of_long? rightNumber, fun binary => ?_⟩
    rw [if_neg binary] at rest
    obtain ⟨first, leftNumber, _⟩ := Option.bind_eq_some_iff.mp rest
    exact leftKnown first leftNumber

/-- A result is known only if the operands are that the operation looks at. -/
theorem isKnown_of_fold (known : (fold operation kind left right).isKnown = true) :
    right.isKnown = true ∧ (operation ≠ .neg → ∃ value ∈ left, value.isKnown = true) := by
  cases kind with
  | int =>
    cases folded : foldIntValues operation left right with
    | none => simp [fold, folded, AbstractValue.isKnown] at known
    | some number => exact isKnown_of_foldIntValues folded
  | long =>
    cases folded : foldLongValues operation left right with
    | none => simp [fold, folded, AbstractValue.isKnown] at known
    | some number => exact isKnown_of_foldLongValues folded
  | float | double => cases known

/-- Negation does not look at a left operand. -/
theorem fold_neg (kind : NumericKind) (left leftFact : Option AbstractValue)
    (right : AbstractValue) : fold .neg kind left right = fold .neg kind leftFact right := by
  cases kind <;> rfl

/-- Folding loses nothing when more is known. -/
theorem fold_of_upheld (rightUpheld : rightFact.isKnown = true → right = rightFact)
    (leftUpheld : ∀ fact ∈ leftFact, fact.isKnown = true → left = some fact)
    (known : (fold operation kind leftFact rightFact).isKnown = true) :
    fold operation kind left right = fold operation kind leftFact rightFact := by
  obtain ⟨rightKnown, leftKnown⟩ := isKnown_of_fold known
  rw [rightUpheld rightKnown]
  by_cases negates : operation = .neg
  · rw [negates]
    exact fold_neg kind left leftFact rightFact
  · obtain ⟨fact, present, isKnown⟩ := leftKnown negates
    rw [leftUpheld fact present isKnown, present]

end Fold

/-- Whatever the slots hold, a load yields a value of its kind. -/
theorem kind_loaded (locals : Locals) (kind : LocalKind) (index : UInt16) :
    (loaded locals kind index).type.kind = kind := by
  unfold loaded
  split
  · split
    · next fits => exact LocalKind.fits_iff.mp fits
    · cases kind <;> rfl
  · cases kind <;> rfl

end Simulation

/-- As far as code reads them, slots uphold what others hold. -/
def Locals.Upholds (code : List Instruction) (upper lower : Locals) : Prop :=
  ∀ place, Machine.Reads code place → ∀ slot, lower.read place = some slot →
    ∃ above, upper.read place = some above ∧ above.content.Upholds slot.content

namespace Locals.Upholds

variable {upper lower : Locals} {code tail : List Instruction} {instruction : Instruction}

/-- Slots uphold what they hold. -/
theorem refl (code : List Instruction) (locals : Locals) : locals.Upholds code locals :=
  fun _ _ slot found => ⟨slot, found, .refl _⟩

/-- Slots that are good for some code are good for what is left of it. -/
theorem of_cons (upholds : upper.Upholds (instruction :: tail) lower) :
    upper.Upholds tail lower := by
  rintro place ⟨reader, member, rest⟩
  exact upholds place ⟨reader, List.mem_cons_of_mem _ member, rest⟩

/-- A load that knew something knows it still. -/
theorem loaded (upholds : upper.Upholds code lower) {kind : LocalKind} {index : UInt16}
    (reads : Machine.Reads code index.toNat) :
    (Simulation.loaded upper kind index).Upholds (Simulation.loaded lower kind index) where
  kind := by rw [Simulation.kind_loaded, Simulation.kind_loaded]
  value := by
    intro known
    unfold Simulation.loaded at known
    split at known
    · next slot there =>
      split at known
      · next fits =>
        obtain ⟨above, held, upheld⟩ := upholds _ reads slot there
        have stillFits : kind.fits above.content.type = true := by
          rw [LocalKind.fits_iff, upheld.kind, ← LocalKind.fits_iff]
          exact fits
        simp only [Simulation.loaded, there, held, if_pos fits, if_pos stillFits]
        exact upheld.value known
      · cases known
    · cases known

/-- Slots may be written in both, with contents of which one upholds the other. A value that the
write destroys above only was not held below. -/
theorem write (upholds : upper.Upholds code lower) (index : Nat) {above slot : Slot}
    (upheld : above.content.Upholds slot.content) :
    (upper.write index above).Upholds code (lower.write index slot) := by
  intro place reads found there
  rw [Locals.read_write] at there ⊢
  rw [upheld.isWide_eq]
  by_cases isHere : place = index
  · rw [if_pos isHere] at there ⊢
    cases there
    exact ⟨above, rfl, upheld⟩
  · rw [if_neg isHere] at there ⊢
    split at there
    · cases there
    · next untouched =>
      rw [if_neg untouched]
      split at there
      · cases there
      · next uncut =>
        obtain ⟨held, holds, sameOrMore⟩ := upholds place reads found there
        have sameWidth : upper.isWideAt place = lower.isWideAt place := by
          simp [Locals.isWideAt, holds, there, sameOrMore.isWide_eq]
        rw [sameWidth, if_neg uncut]
        exact ⟨held, holds, sameOrMore⟩

/-- A slot that is not read may be written below only: a write fills its own slot and can only
empty others. -/
theorem of_write {index : Nat} (unread : ¬Machine.Reads code index) (locals : Locals)
    (slot : Slot) : locals.Upholds code (locals.write index slot) := by
  intro place reads found there
  have apart : place ≠ index := fun same => unread (same ▸ reads)
  rw [Locals.read_write, if_neg apart] at there
  split at there
  · cases there
  · split at there
    · cases there
    · exact ⟨found, there, .refl _⟩

end Locals.Upholds

namespace Simulation

section Results

variable {op : Op} {upper lower : Locals} {contents facts : List Content}

/-- The left operand that arithmetic finds upholds the fact about it. -/
theorem head?_of_forall₂ (operands : List.Forall₂ Content.Upholds contents facts) :
    ∀ fact ∈ facts.head?.map Content.value, fact.isKnown = true →
      contents.head?.map Content.value = some fact := by
  intro fact present known
  cases operands with
  | nil => cases present
  | cons first _ =>
    cases present
    exact congrArg some (first.value known)

/-- Every operation respects the order of what is known. -/
theorem results_upholds (operands : List.Forall₂ Content.Upholds contents facts)
    (loads : ∀ kind index, op = .load kind index →
      (loaded upper kind index).Upholds (loaded lower kind index)) :
    List.Forall₂ Content.Upholds (results op upper contents) (results op lower facts) := by
  cases op with
  | load kind index => exact .cons (loads kind index rfl) .nil
  | arith operation kind =>
    cases operands with
    | nil => exact .nil
    | cons right left =>
      refine .cons ⟨rfl, ?_⟩ .nil
      exact fold_of_upheld right.value (head?_of_forall₂ left)
  | dup | dup2 =>
    cases operands with
    | nil => exact .nil
    | cons copied _ => exact .cons copied (.cons copied .nil)
  | field access target => cases access <;> exact Content.Upholds.refl_all _
  | _ => exact Content.Upholds.refl_all _

end Results

end Simulation

/-- What an operation does to the slots. It does not matter where a stored value comes from. -/
def Locals.stored (locals : Locals) (op : Op) (operands : List Content)
    (source : Option ValueId) : Locals :=
  match op, operands with
  | .store _ index, content :: _ => locals.write index.toNat ⟨content, source⟩
  | _, _ => locals

/-- An operation without side effects leaves the slots alone. -/
theorem Locals.stored_of_pure {op : Op} (pure : op.hasSideEffect = false) (locals : Locals)
    (operands : List Content) (source : Option ValueId) :
    locals.stored op operands source = locals := by
  cases op with
  | store => cases pure
  | _ => rfl

/-- An operation that finds operands which uphold others leaves slots which uphold those it would
have left. -/
theorem Locals.Upholds.stored {upper lower : Locals} {code : List Instruction}
    {contents facts : List Content} (upholds : upper.Upholds code lower) (op : Op)
    (operands : List.Forall₂ Content.Upholds contents facts) (source other : Option ValueId) :
    (upper.stored op contents source).Upholds code (lower.stored op facts other) := by
  cases op with
  | store kind index =>
    cases operands with
    | nil => exact upholds
    | cons content _ => exact upholds.write _ content
  | _ => exact upholds

namespace Simulation

variable {agree : Content → Content → Prop} {operands products : InstructionId → List Content}
  {locals : Locals} {instruction : Instruction} {code front tail other : List Instruction}

/-- What every instruction makes of the contents that it is said to pop agrees with the contents
that it is said to push. -/
def Founded (agree : Content → Content → Prop) (operands products : InstructionId → List Content) :
    Locals → List Instruction → Prop
  | _, [] => True
  | locals, instruction :: rest =>
    List.Forall₂ agree (results instruction.op locals (operands instruction.id))
        (products instruction.id) ∧
      ∃ source, Founded agree operands products
        (locals.stored instruction.op (operands instruction.id) source) rest

namespace Founded

/-- Only the contents of the instructions in the code matter. -/
theorem congr {otherOperands otherProducts : InstructionId → List Content}
    (founded : Founded agree operands products locals code)
    (sameOperands : ∀ instruction ∈ code, otherOperands instruction.id = operands instruction.id)
    (sameProducts : ∀ instruction ∈ code,
      otherProducts instruction.id = products instruction.id) :
    Founded agree otherOperands otherProducts locals code := by
  induction code generalizing locals with
  | nil => trivial
  | cons instruction rest ih =>
    obtain ⟨made, source, further⟩ := founded
    refine ⟨?_, source, ?_⟩
    · rwa [sameOperands instruction List.mem_cons_self, sameProducts instruction List.mem_cons_self]
    · rw [sameOperands instruction List.mem_cons_self]
      exact ih further (fun other member => sameOperands other (List.mem_cons_of_mem _ member))
        (fun other member => sameProducts other (List.mem_cons_of_mem _ member))

/-- What agrees closely agrees loosely. -/
theorem imp {weaker : Content → Content → Prop}
    (founded : Founded agree operands products locals code)
    (weaken : ∀ {content fact}, agree content fact → weaker content fact) :
    Founded weaker operands products locals code := by
  induction code generalizing locals with
  | nil => trivial
  | cons instruction rest ih =>
    obtain ⟨made, source, further⟩ := founded
    exact ⟨made.imp fun _ _ => weaken, source, ih further⟩

/-- What is said about an instruction is founded on some slots. -/
theorem of_mem (founded : Founded agree operands products locals code)
    (member : instruction ∈ code) :
    ∃ there, List.Forall₂ agree (results instruction.op there (operands instruction.id))
      (products instruction.id) := by
  induction code generalizing locals with
  | nil => cases member
  | cons head rest ih =>
    obtain ⟨made, source, further⟩ := founded
    rcases List.mem_cons.mp member with rfl | inside
    · exact ⟨locals, made⟩
    · exact ih further inside

/-- What follows may be exchanged for something that is founded on the same slots. -/
theorem append_mono (founded : Founded agree operands products locals (front ++ tail))
    (later : ∀ locals, Founded agree operands products locals tail →
      Founded agree operands products locals other) :
    Founded agree operands products locals (front ++ other) := by
  induction front generalizing locals with
  | nil => exact later locals founded
  | cons instruction rest ih =>
    obtain ⟨made, source, further⟩ := founded
    exact ⟨made, source, ih further⟩

/-- An instruction without side effects may be left out. -/
theorem of_cons_pure (pure : instruction.op.hasSideEffect = false)
    (founded : Founded agree operands products locals (instruction :: tail)) :
    Founded agree operands products locals tail := by
  obtain ⟨_, source, further⟩ := founded
  rwa [Locals.stored_of_pure pure] at further

/-- An instruction that only takes a value may be put in. -/
theorem cons_discard (discards : instruction.op = .pop ∨ instruction.op = .pop2)
    (nothing : products instruction.id = [])
    (founded : Founded agree operands products locals tail) :
    Founded agree operands products locals (instruction :: tail) := by
  refine ⟨?_, none, ?_⟩
  · rcases discards with op | op <;> rw [op, nothing] <;> exact .nil
  · rcases discards with op | op <;> rw [op] <;> exact founded

section Mono

variable {upper lower : Locals} {contents : InstructionId → List Content}

/-- Facts stay founded when more is known about the operands and about the slots. -/
theorem mono (founded : Founded Content.Upholds operands products lower code)
    (more : ∀ instruction ∈ code,
      List.Forall₂ Content.Upholds (contents instruction.id) (operands instruction.id))
    (upholds : upper.Upholds code lower) :
    Founded Content.Upholds contents products upper code := by
  induction code generalizing lower upper with
  | nil => trivial
  | cons instruction rest ih =>
    obtain ⟨made, source, further⟩ := founded
    have here := more instruction List.mem_cons_self
    refine ⟨?_, source, ?_⟩
    · have better := results_upholds here fun kind index op =>
        upholds.loaded ⟨instruction, List.mem_cons_self, kind, index, op, rfl⟩
      exact Content.Upholds.trans_all better made
    · exact ih further (fun other member => more other (List.mem_cons_of_mem _ member))
        (upholds.of_cons.stored instruction.op here source source)

/-- A store to a slot that no load reads may be left out. -/
theorem of_cons_store {kind : LocalKind} {index : UInt16}
    (op : instruction.op = .store kind index) (unread : ¬Machine.Reads tail index.toNat)
    (founded : Founded Content.Upholds operands products locals (instruction :: tail)) :
    Founded Content.Upholds operands products locals tail := by
  obtain ⟨_, source, further⟩ := founded
  refine further.mono (fun _ _ => Content.Upholds.refl_all _) ?_
  rw [op]
  cases operands instruction.id with
  | nil => exact .refl tail locals
  | cons content rest => exact .of_write unread locals _

/-- A run knows all founded facts. The two walks start with stacks and slots of which one upholds
the other, and this is kept from instruction to instruction. -/
theorem upholds {made : InstructionId → List Content} {stack facts last lastFacts : List Content}
    (derived : Founded Eq contents made upper code)
    (founded : Founded Content.Upholds operands products lower code)
    (threads : Threads contents made stack code last)
    (others : Threads operands products facts code lastFacts)
    (lengths : ∀ instruction ∈ code,
      (contents instruction.id).length = (operands instruction.id).length)
    (known : List.Forall₂ Content.Upholds stack facts) (slots : upper.Upholds code lower) :
    ∀ instruction ∈ code,
      List.Forall₂ Content.Upholds (made instruction.id) (products instruction.id) := by
  induction code generalizing upper lower stack facts with
  | nil => simp
  | cons instruction rest ih =>
    obtain ⟨below, split, later⟩ := threads
    obtain ⟨belowFacts, splitFacts, laterFacts⟩ := others
    obtain ⟨sameMade, source, further⟩ := derived
    obtain ⟨upheld, sourceFacts, furtherFacts⟩ := founded
    have length := lengths instruction List.mem_cons_self
    rw [split, splitFacts] at known
    have popped : List.Forall₂ Content.Upholds (contents instruction.id)
        (operands instruction.id) := by
      simpa [length] using List.forall₂_take (contents instruction.id).length known
    have beneath : List.Forall₂ Content.Upholds below belowFacts := by
      simpa [length] using List.forall₂_drop (contents instruction.id).length known
    have pushed : List.Forall₂ Content.Upholds (made instruction.id) (products instruction.id) := by
      rw [List.forall₂_eq_eq_eq] at sameMade
      rw [← sameMade]
      exact Content.Upholds.trans_all (results_upholds popped fun kind index op =>
        slots.loaded ⟨instruction, List.mem_cons_self, kind, index, op, rfl⟩) upheld
    have pile := List.rel_append (List.rel_reverse pushed) beneath
    have behind := ih further furtherFacts later laterFacts
      (fun other member => lengths other (List.mem_cons_of_mem _ member)) pile
      (slots.of_cons.stored instruction.op popped source sourceFacts)
    intro other member
    rcases List.mem_cons.mp member with rfl | inside
    · exact pushed
    · exact behind other inside

end Mono

end Founded

/-- A store leaves in the slots what is known about the stored value. -/
theorem locals_storeResult (simulation : Simulation) (op : Op) (popped : List ValueId) :
    (simulation.storeResult op popped).frame.locals =
      simulation.frame.locals.stored op (popped.map simulation.graph.content) popped.head? := by
  cases op with
  | store kind index => cases popped <;> rfl
  | _ => rfl

namespace Recorded

variable {done rest : List Instruction} {simulation next last : Simulation} {id : ContextId}

/-- An execution changes nothing about earlier values, and makes of its operands what it makes. -/
theorem contents_execute (recorded : Recorded done simulation)
    (new : instruction.id ∉ done.map Instruction.id)
    (executed : simulation.execute instruction = (.ok id, next)) :
    (∀ other ∈ done,
      next.graph.contentsPopped other.id = simulation.graph.contentsPopped other.id ∧
        next.graph.contentsPushed other.id = simulation.graph.contentsPushed other.id) ∧
      next.graph.contentsPopped instruction.id =
        (simulation.operands instruction).map simulation.graph.content ∧
      next.graph.contentsPushed instruction.id = results instruction.op simulation.frame.locals
        ((simulation.operands instruction).map simulation.graph.content) := by
  have effect := executed_of_ok executed
  have old : ∀ items : List ValueId, (∀ value ∈ items, value < simulation.nextValue) →
      items.map next.graph.content = items.map simulation.graph.content :=
    fun items bound => List.map_congr_left fun value member =>
      effect.older value (bound value member)
  obtain ⟨popsNew, pushesNew⟩ := recorded.edges_execute_new new executed
  refine ⟨?_, ?_, ?_⟩
  · intro other member
    obtain ⟨samePops, samePushes⟩ := recorded.edges_execute_old new executed member
    obtain ⟨popsBound, pushesBound⟩ := recorded.bounded other member
    constructor
    · rw [Graph.contentsPopped, samePops, old _ popsBound, Graph.contentsPopped]
    · rw [Graph.contentsPushed, samePushes, old _ pushesBound, Graph.contentsPushed]
  · rw [Graph.contentsPopped, popsNew]
    exact old _ fun value member =>
      recorded.mirrored.lt_nextValue (List.mem_of_mem_take member)
  · rw [Graph.contentsPushed, pushesNew, effect.newer]

/-- The contents of a run are founded on the slots that it begins with, and what was known before
stays known. -/
theorem founded_runInstructions (recorded : Recorded done simulation)
    (distinct : ((done ++ rest).map Instruction.id).Nodup)
    (ran : simulation.runInstructions rest = .ok last) :
    (∀ other ∈ done,
      last.graph.contentsPopped other.id = simulation.graph.contentsPopped other.id ∧
        last.graph.contentsPushed other.id = simulation.graph.contentsPushed other.id) ∧
      Founded Eq last.graph.contentsPopped last.graph.contentsPushed simulation.frame.locals
        rest := by
  induction rest generalizing done simulation with
  | nil =>
    cases ran
    exact ⟨fun _ _ => ⟨rfl, rfl⟩, trivial⟩
  | cons instruction rest ih =>
    simp only [Simulation.runInstructions] at ran
    split at ran
    · cases ran
    · next id next executed =>
      have new := id_not_mem distinct
      have split : done ++ instruction :: rest = (done ++ [instruction]) ++ rest := by simp
      rw [split] at distinct
      obtain ⟨old, popped, pushed⟩ := recorded.contents_execute new executed
      obtain ⟨kept, founded⟩ := ih (recorded.execute new executed) distinct ran
      obtain ⟨poppedLast, pushedLast⟩ := kept instruction (by simp)
      refine ⟨?_, ?_, (simulation.operands instruction).head?, ?_⟩
      · intro other member
        obtain ⟨poppedOther, pushedOther⟩ := kept other (List.mem_append_left _ member)
        exact ⟨poppedOther.trans (old other member).1, pushedOther.trans (old other member).2⟩
      · rw [List.forall₂_eq_eq_eq, poppedLast, popped, pushedLast, pushed]
      · rw [poppedLast, popped, ← locals_storeResult, ← (executed_of_ok executed).locals]
        exact founded

/-- What a run records about every instruction is what the instruction makes of its operands. -/
theorem founded {frame : Frame} {body : Body} (fresh : frame.stack = [])
    (ran : Simulation.run frame body = .ok simulation) :
    Founded Eq simulation.graph.contentsPopped simulation.graph.contentsPushed frame.locals
      body.instructions :=
  ((start frame fresh).founded_runInstructions body.distinct ran).2

end Recorded

end Simulation

end ClassTrim
