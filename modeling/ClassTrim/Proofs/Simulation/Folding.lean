import ClassTrim.Proofs.Machine.Words
import ClassTrim.Proofs.Simulation.Contract

/-!
# What arithmetic pushes

An arithmetic instruction pushes one value of its own type. The value is known if the operation is
one on integers and if every operand that it needs is known, and known to be of the type that the
operation takes; then it is the value that the operation yields. A division by zero yields nothing,
and neither it nor anything else is computed for it.

Negation needs one operand and all other operations need two. The count of a shift is an `int`
whatever is shifted.
-/

namespace ClassTrim

/-- The number of bits in a value of a kind. -/
def NumericKind.bits : NumericKind → Nat
  | .int | .float => 32
  | .long | .double => 64

/-- The kind of the right operand of an operation. -/
def ArithOp.rightKind (operation : ArithOp) (kind : NumericKind) : NumericKind :=
  if operation.isShift then .int else kind

/-- The integer that a value is known to be, as one of a kind. -/
def AbstractValue.number? (kind : NumericKind) (value : AbstractValue) : Option Int :=
  match kind with
  | .int => value.int?.map Int32.toInt
  | .long => value.long?.map Int64.toInt
  | .float | .double => none

/-- No kind of number is without bits. -/
theorem NumericKind.bits_pos (kind : NumericKind) : 0 < kind.bits := by
  cases kind <;> decide

/-- A known integer lies in the range of its kind. -/
theorem AbstractValue.isWord_of_number? {kind : NumericKind} {value : AbstractValue} {number : Int}
    (known : value.number? kind = some number) : Integers.IsWord kind.bits number := by
  cases kind with
  | int =>
    obtain ⟨word, _, rfl⟩ := Option.map_eq_some_iff.mp known
    exact ⟨word.le_toInt, word.toInt_lt⟩
  | long =>
    obtain ⟨word, _, rfl⟩ := Option.map_eq_some_iff.mp known
    exact ⟨word.le_toInt, word.toInt_lt⟩
  | float | double => cases known

/-- Integers have all operations. -/
theorem Op.not_isFormless {operation : ArithOp} {kind : NumericKind}
    (integral : kind.isFloating = false) : ¬(Op.arith operation kind).IsFormless := by
  rintro ⟨_, _, same, _, floating⟩
  cases same
  cases kind with
  | int | long => simp at floating
  | float | double => cases integral

namespace Simulation

section Fold

/-- Two operands that are looked up and then folded can be turned into numbers before. -/
theorem map_bind_bind {α β γ : Type} {first : Option α} {second : Option β}
    {folded : α → β → Option γ} {compute : Int → Int → Option Int} {left : α → Int}
    {right : β → Int} {number : γ → Int}
    (law : ∀ one other, (folded one other).map number = compute (left one) (right other)) :
    (second.bind fun other => first.bind fun one => folded one other).map number =
      (second.map right).bind fun other => (first.map left).bind fun one => compute one other := by
  cases second with
  | none => rfl
  | some other =>
    cases first with
    | none => rfl
    | some one => exact law one other

/-- The left operand reads as an `int` or a `long`, and as no integer of a floating-point kind. -/
theorem bind_number? (kind : NumericKind) (left : Option AbstractValue) :
    left.bind (AbstractValue.number? kind) =
      match kind with
      | .int => (left.bind AbstractValue.int?).map Int32.toInt
      | .long => (left.bind AbstractValue.long?).map Int64.toInt
      | .float | .double => none := by
  cases left <;> cases kind <;> rfl

/-- The number that is known of a folded value is computed from the numbers that are known of the
operands. A negation does not look at the left one. -/
theorem number?_fold (operation : ArithOp) (kind : NumericKind) (left : Option AbstractValue)
    (right : AbstractValue) :
    (fold operation kind left right).number? kind =
      (right.number? (operation.rightKind kind)).bind fun second =>
        if operation = .neg then Integers.compute kind.bits .neg 0 second
        else (left.bind (AbstractValue.number? kind)).bind fun first =>
          Integers.compute kind.bits operation first second := by
  rw [bind_number?]
  cases kind with
  | int =>
    have folded : (fold operation .int left right).number? .int =
        (foldIntValues operation left right).map Int32.toInt := by
      simp only [fold]
      cases foldIntValues operation left right <;> rfl
    have same : operation.rightKind .int = .int := by simp [ArithOp.rightKind]
    rw [folded, same]
    by_cases negates : operation = .neg
    · subst negates
      simp only [foldIntValues, AbstractValue.number?, if_true]
      cases right.int? with
      | none => rfl
      | some second => exact Integers.map_foldInt .neg 0 second
    · simp only [foldIntValues, if_neg negates]
      exact map_bind_bind (Integers.map_foldInt operation)
  | long =>
    have folded : (fold operation .long left right).number? .long =
        (foldLongValues operation left right).map Int64.toInt := by
      simp only [fold]
      cases foldLongValues operation left right <;> rfl
    rw [folded]
    -- The count of a shift is looked up as an `int`.
    cases shifts : operation.isShift with
    | true =>
      have binary : operation ≠ .neg := by
        rintro rfl
        cases shifts
      simp only [foldLongValues, shifts, ArithOp.rightKind, if_true, if_neg binary]
      exact map_bind_bind fun one other => Integers.map_foldLongShift operation one other shifts
    | false =>
      simp only [foldLongValues, shifts, ArithOp.rightKind, Bool.false_eq_true, if_false]
      by_cases negates : operation = .neg
      · subst negates
        simp only [AbstractValue.number?, if_true]
        cases right.long? with
        | none => rfl
        | some second => exact Integers.map_foldLong .neg 0 second rfl
      · simp only [if_neg negates]
        exact map_bind_bind fun one other => Integers.map_foldLong operation one other shifts
  | float | double =>
    by_cases negates : operation = .neg
    · subst negates
      rfl
    · simp [AbstractValue.number?, negates]

/-- A folded value of which no number is known is unknown altogether. -/
theorem fold_eq_unknown_iff (operation : ArithOp) (kind : NumericKind)
    (left : Option AbstractValue) (right : AbstractValue) :
    fold operation kind left right = .unknown ↔
      (fold operation kind left right).number? kind = none := by
  cases kind with
  | int =>
    simp only [fold]
    cases foldIntValues operation left right <;> simp [AbstractValue.number?, AbstractValue.int?]
  | long =>
    simp only [fold]
    cases foldLongValues operation left right <;> simp [AbstractValue.number?, AbstractValue.long?]
  | float | double => simp [fold, AbstractValue.number?]

end Fold

variable {simulation : Simulation} {instruction : Instruction} {operation : ArithOp}
  {kind : NumericKind}

/-- What is known about the value that lies a number of entries below the top of the stack;
nothing, if there is none. -/
def known (simulation : Simulation) (below : Nat) : AbstractValue :=
  ((simulation.frame.peek? below).map fun value => (simulation.graph.content value).value).getD
    .unknown

/-- The operands that an operation needs are known and of the types that it takes. -/
structure Supplies (simulation : Simulation) (operation : ArithOp) (kind : NumericKind)
    (left right : Int) : Prop where
  right_eq : (simulation.known 0).number? (operation.rightKind kind) = some right
  left_eq : operation ≠ .neg → (simulation.known 1).number? kind = some left

/-- What an operation makes of what is known about its operands. -/
def folded (simulation : Simulation) (operation : ArithOp) (kind : NumericKind) : AbstractValue :=
  fold operation kind (if operation = .neg then none else some (simulation.known 1))
    (simulation.known 0)

/-- What an arithmetic instruction pushes is folded from what is known about its operands. -/
theorem execute_arith (arithmetic : instruction.op = .arith operation kind)
    (formed : ¬instruction.op.IsFormless)
    (enough : operation.operands ≤ simulation.frame.stack.length) :
    ∃ next, simulation.execute instruction = (.ok simulation.nextContext, next) ∧
      next.frame.stack =
        simulation.nextValue :: simulation.frame.stack.drop operation.operands ∧
      next.graph.content simulation.nextValue =
        ⟨kind.type, simulation.folded operation kind⟩ := by
  have form := formFault?_eq_none_iff.mpr formed
  have wide : instruction.op.needsWideTop = true → simulation.hasNarrowTop = false := by
    rw [arithmetic]
    nofun
  have count : instruction.op.effect = ⟨operation.operands, 1⟩ := by rw [arithmetic]; rfl
  have deep : instruction.op.effect.pops ≤ simulation.frame.stack.length := by rwa [count]
  have effect := executed_completed simulation instruction form wide deep
  refine ⟨_, execute_eq_completed simulation instruction form wide deep, ?_, ?_⟩
  · have stack := effect.stack
    rw [products, count] at stack
    exact stack
  · have made := effect.newer
    rw [products, operands, count, arithmetic] at made
    cases stack : simulation.frame.stack with
    | nil => cases operation <;> simp [ArithOp.operands, stack] at enough
    | cons top rest =>
      by_cases negates : operation = .neg
      · subst negates
        simpa [stack, ArithOp.operands, results, folded, known, Frame.peek?] using made
      · have two : operation.operands = 2 := by cases operation <;> first | rfl | contradiction
        rw [two, stack] at enough
        cases rest with
        | nil => simp at enough
        | cons second rest =>
          simpa [stack, two, results, folded, known, Frame.peek?, negates] using made

/-- An operation whose operands are known makes what arithmetic on words of its kind makes. -/
theorem Supplies.number?_folded {left right : Int}
    (supplies : simulation.Supplies operation kind left right) :
    (simulation.folded operation kind).number? kind =
      Integers.compute kind.bits operation left right := by
  rw [folded, number?_fold, supplies.right_eq]
  by_cases negates : operation = .neg
  · subst negates
    rfl
  · simp [negates, supplies.left_eq negates]

/-- The left operand of an operation that has one lies in the range of its kind. -/
theorem Supplies.isWord {left right : Int}
    (supplies : simulation.Supplies operation kind left right) (binary : operation ≠ .neg) :
    Integers.IsWord kind.bits left :=
  AbstractValue.isWord_of_number? (supplies.left_eq binary)

/-- A number is known of the result only if the operands supply it. -/
theorem exists_supplies {number : Int}
    (known : (simulation.folded operation kind).number? kind = some number) :
    ∃ left right, simulation.Supplies operation kind left right := by
  rw [folded, number?_fold] at known
  obtain ⟨right, right_eq, rest⟩ := Option.bind_eq_some_iff.mp known
  by_cases negates : operation = .neg
  · exact ⟨0, right, right_eq, fun binary => absurd negates binary⟩
  · simp only [if_neg negates, Option.bind_some] at rest
    obtain ⟨left, left_eq, _⟩ := Option.bind_eq_some_iff.mp rest
    exact ⟨left, right, right_eq, fun _ => left_eq⟩

/-- The reasons for which nothing is known of a result. -/
theorem number?_folded_eq_none_iff :
    (simulation.folded operation kind).number? kind = none ↔
      kind.isFloating = true ∨
        (simulation.known 0).number? (operation.rightKind kind) = none ∨
        (operation ≠ .neg ∧ (simulation.known 1).number? kind = none) ∨
        (operation.isDivision = true ∧
          (simulation.known 0).number? (operation.rightKind kind) = some 0) := by
  constructor
  · intro unknown
    have divided : ∀ left {right}, simulation.Supplies operation kind left right →
        operation.isDivision = true ∧ right = 0 := by
      intro left right supplies
      rw [supplies.number?_folded] at unknown
      exact Integers.compute_eq_none_iff.mp unknown
    cases right_eq : (simulation.known 0).number? (operation.rightKind kind) with
    | none => exact .inr (.inl rfl)
    | some right =>
      by_cases negates : operation = .neg
      · obtain ⟨divides, rfl⟩ := divided 0 ⟨right_eq, fun binary => absurd negates binary⟩
        exact .inr (.inr (.inr ⟨divides, rfl⟩))
      · cases left_eq : (simulation.known 1).number? kind with
        | none => exact .inr (.inr (.inl ⟨negates, rfl⟩))
        | some left =>
          obtain ⟨divides, rfl⟩ := divided left ⟨right_eq, fun _ => left_eq⟩
          exact .inr (.inr (.inr ⟨divides, rfl⟩))
  · intro reasons
    apply Option.eq_none_iff_forall_ne_some.mpr
    intro number known
    obtain ⟨left, right, supplies⟩ := exists_supplies known
    have right_eq := supplies.right_eq
    rcases reasons with floating | missing | ⟨binary, missing⟩ | ⟨divides, zero⟩
    · cases kind with
      | int | long => cases floating
      | float | double => cases known
    · rw [missing] at right_eq
      cases right_eq
    · have left_eq := supplies.left_eq binary
      rw [missing] at left_eq
      cases left_eq
    · have isZero : right = 0 := Option.some.inj (right_eq.symm.trans zero)
      rw [supplies.number?_folded, Integers.compute_eq_none_iff.mpr ⟨divides, isZero⟩] at known
      cases known

/-- Folding is exact integer arithmetic. An arithmetic instruction that has its operands on the
stack pushes one value of its type. The number that is known of this value is the one that the
operation yields on the numbers that are known of its operands. Nothing is known of it exactly if
the operation is a floating-point one, or an operand that it needs is not known to be of the type
that it takes, or an integer is divided by zero. And on no operands does a primitive operation
refuse to go on while the result is computed. -/
theorem arithmetic_folds_exactly {simulation : Simulation} {instruction : Instruction}
    {operation : ArithOp} {kind : NumericKind} (arithmetic : instruction.op = .arith operation kind)
    (formed : ¬instruction.op.IsFormless)
    (enough : operation.operands ≤ simulation.frame.stack.length) :
    ∃ next result, simulation.execute instruction = (.ok simulation.nextContext, next) ∧
      next.frame.stack = simulation.nextValue :: simulation.frame.stack.drop operation.operands ∧
      next.graph.content simulation.nextValue = ⟨kind.type, result⟩ ∧
      (∀ number, result.number? kind = some number ↔
        ∃ left right, simulation.Supplies operation kind left right ∧
          Integers.Yields kind.bits operation left right number) ∧
      (result = .unknown ↔
        kind.isFloating = true ∨
          (simulation.known 0).number? (operation.rightKind kind) = none ∨
          (operation ≠ .neg ∧ (simulation.known 1).number? kind = none) ∨
          (operation.isDivision = true ∧
            (simulation.known 0).number? (operation.rightKind kind) = some 0)) ∧
      ∀ left right, simulation.Supplies operation kind left right →
        Integers.evaluate kind.bits operation left right = .ok (result.number? kind) := by
  obtain ⟨next, executed, stack, content⟩ := execute_arith arithmetic formed enough
  refine ⟨next, simulation.folded operation kind, executed, stack, content, ?_, ?_, ?_⟩
  · intro number
    constructor
    · intro known
      obtain ⟨left, right, supplies⟩ := exists_supplies known
      rw [supplies.number?_folded, Integers.compute_eq_some_iff kind.bits_pos supplies.isWord]
        at known
      exact ⟨left, right, supplies, known⟩
    · rintro ⟨left, right, supplies, yields⟩
      rw [supplies.number?_folded, Integers.compute_eq_some_iff kind.bits_pos supplies.isWord]
      exact yields
  · rw [← number?_folded_eq_none_iff]
    exact fold_eq_unknown_iff ..
  · intro left right supplies
    rw [supplies.number?_folded]
    exact Integers.evaluate_eq_ok kind.bits_pos operation right supplies.isWord

/-- The least `int` is divided by minus one, and a `long` waits with the count of a shift. -/
def leastAndShifted : List Action :=
  [.execute ⟨0, 0, .ldc (.int (-2147483648))⟩, .execute ⟨1, 3, .ldc (.int (-1))⟩,
    .execute ⟨2, 5, .arith .div .int⟩, .execute ⟨3, 6, .ldc (.long 1)⟩,
    .execute ⟨4, 7, .ldc (.int (-63))⟩]

/-- The least `int` divided by minus one is the least `int`. A count of minus sixty-three shifts by
one place. -/
theorem arithmetic_folds_exactly_extremes :
    (∃ next result, (driven (.empty 0 0) (leastAndShifted.take 2)).execute
        ⟨2, 5, .arith .div .int⟩ = (.ok 2, next) ∧
      next.graph.content 2 = ⟨.int, result⟩ ∧ result.number? .int = some (-2147483648)) ∧
    ∃ next result, (driven (.empty 0 0) leastAndShifted).execute
        ⟨5, 10, .arith .shl .long⟩ = (.ok 5, next) ∧
      next.graph.content 5 = ⟨.long, result⟩ ∧ result.number? .long = some 2 := by
  constructor
  · obtain ⟨next, result, executed, _, content, _, _, computed⟩ :=
      @arithmetic_folds_exactly (driven (.empty 0 0) (leastAndShifted.take 2))
        ⟨2, 5, .arith .div .int⟩ .div .int rfl (Op.not_isFormless rfl) (by decide)
    have accepted := computed (-2147483648) (-1) ⟨rfl, fun _ => rfl⟩
    exact ⟨next, result, executed, content, (Except.ok.inj accepted).symm⟩
  · obtain ⟨next, result, executed, _, content, _, _, computed⟩ :=
      @arithmetic_folds_exactly (driven (.empty 0 0) leastAndShifted)
        ⟨5, 10, .arith .shl .long⟩ .shl .long rfl (Op.not_isFormless rfl) (by decide)
    have accepted := computed 1 (-63) ⟨rfl, fun _ => rfl⟩
    exact ⟨next, result, executed, content, (Except.ok.inj accepted).symm⟩

end Simulation

end ClassTrim
