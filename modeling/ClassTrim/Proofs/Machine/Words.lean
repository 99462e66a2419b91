import Mathlib.Data.Int.Bitwise
import Mathlib.Data.Int.ModEq
import Mathlib.Tactic.Linarith
import Mathlib.Tactic.Ring
import ClassTrim.Proofs.Machine.Integers

/-!
# Results of integer arithmetic

What an operation on words makes can be told without computing it. The result is a word. For sums,
differences, products, opposites and quotients, and for a shift to the left, it leaves the same
remainder as the exact number when both are divided by the number of words. A remainder and a
signed shift to the right never leave the range of the words, so there the result is the exact
number itself. For the bitwise operations each bit is told. This fixes the result, and it is the one
that is computed.

Computing it step by step never fails either. A primitive operation may refuse its operands: a
divisor may be zero, a count may reach beyond the word, and the number that comes out may be no
word. Neither happens once a zero divisor is left out and a count is reduced to the width.
-/

namespace ClassTrim.Integers

/-- The integers that a signed word of a width holds. -/
def IsWord (width : Nat) (number : Int) : Prop :=
  -2 ^ (width - 1) ≤ number ∧ number < 2 ^ (width - 1)

instance (width : Nat) (number : Int) : Decidable (IsWord width number) :=
  inferInstanceAs (Decidable (_ ∧ _))

/-- The result of an operation on two words, told by what is true of it. -/
def Yields (width : Nat) (operation : ArithOp) (left right result : Int) : Prop :=
  IsWord width result ∧
    match operation with
    | .add => result ≡ left + right [ZMOD 2 ^ width]
    | .sub => result ≡ left - right [ZMOD 2 ^ width]
    | .mul => result ≡ left * right [ZMOD 2 ^ width]
    | .neg => result ≡ -right [ZMOD 2 ^ width]
    | .div => right ≠ 0 ∧ result ≡ left.tdiv right [ZMOD 2 ^ width]
    | .rem => right ≠ 0 ∧ result = left - left.tdiv right * right
    | .shl => result ≡ left * 2 ^ places width right [ZMOD 2 ^ width]
    | .shr => result = left.fdiv (2 ^ places width right)
    | .ushr => result ≡ left % 2 ^ width / 2 ^ places width right [ZMOD 2 ^ width]
    | .and => ∀ place < width, result.testBit place = (left.testBit place && right.testBit place)
    | .or => ∀ place < width, result.testBit place = (left.testBit place || right.testBit place)
    | .xor => ∀ place < width, result.testBit place = (left.testBit place ^^ right.testBit place)

section Range

variable {width : Nat} {number other : Int}

/-- A wrapped number has the remainder of the number. -/
theorem wrap_modEq (width : Nat) (number : Int) : wrap width number ≡ number [ZMOD 2 ^ width] := by
  have same := Int.bmod_emod (x := number) (m := 2 ^ width)
  push_cast at same
  exact same

/-- Numbers with one remainder wrap to one word. -/
theorem wrap_eq_of_modEq (same : number ≡ other [ZMOD 2 ^ width]) :
    wrap width number = wrap width other := by
  have residues : number % ((2 ^ width : Nat) : Int) = other % ((2 ^ width : Nat) : Int) := by
    push_cast
    exact same
  rw [wrap, wrap, ← Int.emod_bmod number, residues, Int.emod_bmod]

/-- The words are the numbers that wrapping leaves alone. -/
theorem isWord_iff_wrap_eq (positive : 0 < width) :
    IsWord width number ↔ wrap width number = number := by
  obtain ⟨below, rfl⟩ := Nat.exists_eq_succ_of_ne_zero (Nat.ne_of_gt positive)
  have half : ((2 ^ (below + 1) : Nat) : Int) = 2 * 2 ^ below := by
    push_cast
    ring
  have bounds := Int.bmod_eq_iff (a := number) (b := 2 ^ (below + 1)) (c := number) (by positivity)
  rw [wrap, bounds, half, IsWord, Nat.succ_sub_one]
  have all : (2 * 2 ^ below : Int) ∣ number - number := by simp
  constructor
  · intro inside
    exact ⟨by omega, by omega, all⟩
  · intro inside
    exact ⟨by omega, by omega⟩

/-- What is wrapped is a word. -/
theorem isWord_wrap (positive : 0 < width) (number : Int) : IsWord width (wrap width number) := by
  rw [isWord_iff_wrap_eq positive]
  exact wrap_eq_of_modEq (wrap_modEq width number)

/-- A word is fixed by its remainder. -/
theorem isWord_and_modEq_iff (positive : 0 < width) :
    IsWord width number ∧ number ≡ other [ZMOD 2 ^ width] ↔ wrap width other = number := by
  constructor
  · rintro ⟨inside, same⟩
    rw [← (isWord_iff_wrap_eq positive).mp inside]
    exact (wrap_eq_of_modEq same).symm
  · rintro rfl
    exact ⟨isWord_wrap positive other, wrap_modEq width other⟩

/-- A remainder lies between zero and the dividend. -/
theorem isWord_remainder (inside : IsWord width number) (other : Int) :
    IsWord width (number - other * number.tdiv other) := by
  have size := Int.natAbs_tmod number other
  have least : number.natAbs % other.natAbs ≤ number.natAbs := Nat.mod_le _ _
  rw [← Int.tmod_def]
  obtain ⟨lower, upper⟩ := inside
  rcases Int.le_total 0 number with up | down
  · have sign := Int.tmod_nonneg other up
    exact ⟨by omega, by omega⟩
  · have sign : number.tmod other ≤ 0 := by
      have flipped := Int.tmod_nonneg other (Int.neg_nonneg_of_nonpos down)
      rw [Int.neg_tmod] at flipped
      omega
    exact ⟨by omega, by omega⟩

/-- A signed shift to the right goes toward zero, or stops short of it. -/
theorem isWord_quotient (inside : IsWord width number) (count : Nat) :
    IsWord width (number / 2 ^ count) := by
  have one : (1 : Int) ≤ 2 ^ count := by exact_mod_cast Nat.one_le_two_pow
  obtain ⟨lower, upper⟩ := inside
  rcases Int.le_total 0 number with up | down
  · have least : number / 2 ^ count ≤ number := Int.ediv_le_self _ up
    have sign : 0 ≤ number / 2 ^ count := Int.ediv_nonneg up (by omega)
    exact ⟨by omega, by omega⟩
  · have most : number ≤ number / 2 ^ count := by
      rw [Int.le_ediv_iff_mul_le (by omega)]
      nlinarith
    have sign : number / 2 ^ count ≤ 0 := Int.ediv_nonpos_of_nonpos_of_neg down (by omega)
    exact ⟨by omega, by omega⟩

end Range

section Bits

variable {width : Nat}

/-- The bits of an integer below the width are those of its pattern. -/
theorem testBit_pattern (number : Int) {place : Nat} (inside : place < width) :
    (pattern width number).testBit place = number.testBit place := by
  have whole : ((2 ^ width : Nat) : Int) = 2 ^ width := by push_cast; rfl
  cases number with
  | ofNat natural =>
    have residue : pattern width (.ofNat natural) = natural % 2 ^ width := by
      rw [pattern, ← whole]
      exact Int.toNat_natCast _
    rw [residue, Nat.testBit_mod_two_pow]
    simp [Int.testBit, inside]
  | negSucc natural =>
    have below : natural % 2 ^ width < 2 ^ width := Nat.mod_lt _ (by positivity)
    have residue : pattern width (.negSucc natural) =
        2 ^ width - (natural % 2 ^ width + 1) := by
      rw [pattern, Int.negSucc_emod _ (by positivity), ← whole]
      omega
    rw [residue, Nat.testBit_two_pow_sub_succ below, Nat.testBit_mod_two_pow]
    simp [Int.testBit, inside]

/-- Integers leave the same remainder if their bits below the width are the same. -/
theorem modEq_iff_testBit {number other : Int} :
    number ≡ other [ZMOD 2 ^ width] ↔
      ∀ place < width, number.testBit place = other.testBit place := by
  have residue : ∀ whole : Int, whole % 2 ^ width = pattern width whole := by
    intro whole
    rw [pattern, Int.toNat_of_nonneg (Int.emod_nonneg _ (by positivity))]
  have small : ∀ whole, pattern width whole < 2 ^ width := by
    intro whole
    have bound := Int.emod_lt_of_pos whole (b := 2 ^ width) (by positivity)
    rw [residue] at bound
    exact_mod_cast bound
  constructor
  · intro same place inside
    have patterns : pattern width number = pattern width other := by rw [pattern, pattern, same]
    rw [← testBit_pattern number inside, patterns, testBit_pattern other inside]
  · intro same
    have patterns : pattern width number = pattern width other := by
      apply Nat.eq_of_testBit_eq
      intro place
      by_cases inside : place < width
      · rw [testBit_pattern number inside, same place inside, testBit_pattern other inside]
      · have beyond : 2 ^ width ≤ 2 ^ place := Nat.pow_le_pow_right (by decide) (by omega)
        rw [Nat.testBit_eq_false_of_lt ((small number).trans_le beyond),
          Nat.testBit_eq_false_of_lt ((small other).trans_le beyond)]
    rw [Int.ModEq, residue, residue, patterns]

/-- A word is fixed by its bits. -/
theorem isWord_and_testBit_iff (positive : 0 < width) {number : Int} {bits : Nat → Bool}
    {whole : Nat} (told : ∀ place < width, whole.testBit place = bits place) :
    IsWord width number ∧ (∀ place < width, number.testBit place = bits place) ↔
      wrap width whole = number := by
  rw [← isWord_and_modEq_iff positive, modEq_iff_testBit]
  refine and_congr_right fun _ => forall₂_congr fun place inside => ?_
  rw [← told place inside]
  rfl

end Bits

/-- What is computed is what the operation yields. -/
theorem compute_eq_some_iff {width : Nat} (positive : 0 < width) {operation : ArithOp}
    {left right result : Int} (word : operation ≠ .neg → IsWord width left) :
    compute width operation left right = some result ↔
      Yields width operation left right result := by
  -- Where the exact number is a word already, being a word adds nothing to what is told.
  have plain : ∀ {number : Int}, IsWord width number →
      (some number = some result ↔ IsWord width result ∧ result = number) := by
    intro number inside
    constructor
    · rintro ⟨⟩
      exact ⟨inside, rfl⟩
    · rintro ⟨_, rfl⟩
      rfl
  cases operation with
  | add | sub | mul | neg | shl =>
    simp only [compute, Yields, Option.some.injEq]
    exact (isWord_and_modEq_iff positive).symm
  | ushr =>
    have unsigned : ((pattern width left / 2 ^ places width right : Nat) : Int) =
        left % 2 ^ width / 2 ^ places width right := by
      push_cast
      rw [pattern, Int.toNat_of_nonneg (Int.emod_nonneg _ (by positivity))]
    simp only [compute, Yields, Option.some.injEq, unsigned]
    exact (isWord_and_modEq_iff positive).symm
  | div =>
    simp only [compute, Yields]
    split
    · simp_all
    · next divisor =>
      simp only [Option.some.injEq, ne_eq, divisor, not_false_iff, true_and]
      exact (isWord_and_modEq_iff positive).symm
  | rem =>
    simp only [compute, Yields]
    split
    · simp_all
    · next divisor =>
      simp only [ne_eq, divisor, not_false_iff, true_and]
      rw [Int.mul_comm (left.tdiv right)]
      exact plain (isWord_remainder (word (by decide)) right)
  | shr =>
    simp only [compute, Yields]
    rw [Int.fdiv_eq_ediv_of_nonneg _ (by positivity)]
    exact plain (isWord_quotient (word (by decide)) _)
  | and =>
    simp only [compute, Yields, Option.some.injEq]
    refine (isWord_and_testBit_iff positive fun place inside => ?_).symm
    rw [Nat.testBit_and, testBit_pattern left inside, testBit_pattern right inside]
  | or =>
    simp only [compute, Yields, Option.some.injEq]
    refine (isWord_and_testBit_iff positive fun place inside => ?_).symm
    rw [Nat.testBit_or, testBit_pattern left inside, testBit_pattern right inside]
  | xor =>
    simp only [compute, Yields, Option.some.injEq]
    refine (isWord_and_testBit_iff positive fun place inside => ?_).symm
    rw [Nat.testBit_xor, testBit_pattern left inside, testBit_pattern right inside]

/-- The least word divided by minus one is the least word again, and leaves no remainder. -/
example : compute 32 .div (-2 ^ 31) (-1) = some (-2 ^ 31) ∧
    compute 32 .rem (-2 ^ 31) (-1) = some 0 := by decide

/-- Why a primitive operation refuses its operands. -/
inductive Refusal where
  | zeroDivisor
  /-- The count of a shift is negative, or not less than the width. -/
  | countTooLarge
  /-- The number that comes out is no word. -/
  | overflow
deriving DecidableEq

/-- The count of a shift by primitive operations. -/
def shiftCount (width : Nat) (count : Int) : Except Refusal Nat :=
  if 0 ≤ count ∧ count < width then .ok count.toNat else .error .countTooLarge

/-- The primitive operations, which refuse a zero divisor and a count beyond the width. -/
def primitive (width : Nat) (operation : ArithOp) (left right : Int) : Except Refusal Int :=
  match operation with
  | .add => .ok (wrap width (left + right))
  | .sub => .ok (wrap width (left - right))
  | .mul => .ok (wrap width (left * right))
  | .neg => .ok (wrap width (-right))
  | .div => if right = 0 then .error .zeroDivisor else .ok (wrap width (left.tdiv right))
  | .rem => if right = 0 then .error .zeroDivisor else .ok (left.tmod right)
  | .shl => (shiftCount width right).map fun count => wrap width (left * 2 ^ count)
  | .shr => (shiftCount width right).map fun count => left / 2 ^ count
  | .ushr => (shiftCount width right).map fun count =>
    wrap width (pattern width left / 2 ^ count : Nat)
  | .and => .ok (wrap width (pattern width left &&& pattern width right : Nat))
  | .or => .ok (wrap width (pattern width left ||| pattern width right : Nat))
  | .xor => .ok (wrap width (pattern width left ^^^ pattern width right : Nat))

/-- Computes a result with primitive operations. Division by zero is left out beforehand, and a
count is reduced to the width; what comes out has to be a word. -/
def evaluate (width : Nat) (operation : ArithOp) (left right : Int) :
    Except Refusal (Option Int) :=
  if operation.isDivision && right = 0 then .ok none
  else do
    let second := if operation.isShift then right % width else right
    let number ← primitive width operation left second
    if IsWord width number then .ok (some number) else .error .overflow

/-- A count reduced to the width is accepted, and shifts by the places of the count. -/
theorem shiftCount_emod {width : Nat} (positive : 0 < width) (count : Int) :
    shiftCount width (count % width) = .ok (places width count) := by
  have most := Int.emod_lt_of_pos count (b := width) (by omega)
  have least := Int.emod_nonneg count (b := width) (by omega)
  rw [shiftCount, if_pos ⟨least, most⟩, places]

/-- Where there is a result, the primitive operation accepts its operands and gives it. -/
theorem primitive_eq_ok {width : Nat} (positive : 0 < width) {operation : ArithOp}
    {left right number : Int} (computed : compute width operation left right = some number) :
    primitive width operation left (if operation.isShift then right % width else right) =
      .ok number := by
  cases operation with
  | div | rem =>
    simp only [compute] at computed
    split at computed
    · cases computed
    · next divisor =>
      cases computed
      simp [primitive, ArithOp.isShift, divisor, Int.tmod_def]
  | shl | shr | ushr =>
    cases computed
    simp only [primitive, ArithOp.isShift, if_true, shiftCount_emod positive]
    rfl
  | _ =>
    cases computed
    rfl

/-- Nothing is refused. -/
theorem evaluate_eq_ok {width : Nat} (positive : 0 < width) (operation : ArithOp)
    {left : Int} (right : Int) (word : operation ≠ .neg → IsWord width left) :
    evaluate width operation left right = .ok (compute width operation left right) := by
  cases computed : compute width operation left right with
  | none =>
    obtain ⟨divides, zero⟩ := compute_eq_none_iff.mp computed
    simp [evaluate, divides, zero]
  | some number =>
    have inside : IsWord width number := ((compute_eq_some_iff positive word).mp computed).1
    have guarded : (operation.isDivision && decide (right = 0)) = false := by
      rw [Bool.eq_false_iff, Ne, Bool.and_eq_true, decide_eq_true_eq, ← compute_eq_none_iff]
      exact Option.ne_none_iff_exists'.mpr ⟨number, computed⟩
    simp only [evaluate, guarded, Bool.false_eq_true, if_false, primitive_eq_ok positive computed,
      bind, Except.bind, if_pos inside]

end ClassTrim.Integers
