import Mathlib.Tactic.Positivity
import ClassTrim.Simulation.Fold

/-!
# Integer arithmetic of fixed width

Signed words are integers here, and an operation on them is the operation on integers,
brought back into the range of the words where it leaves it. Quotients are rounded toward
zero, and a remainder has the sign of the dividend. A shift takes its count modulo the width.
The bitwise operations work on the patterns of the words, their residues modulo the number of
words, and so does the shift that fills with zeros.

The simulation folds exactly this arithmetic: on 32 bits for `int`, on 64 bits for `long`,
with no result for a division by zero only.
-/

namespace ClassTrim.Integers

/-- The signed word of a width that an integer is brought back to. -/
def wrap (width : Nat) (number : Int) : Int :=
  number.bmod (2 ^ width)

/-- The pattern of a word, read as a number without sign. -/
def pattern (width : Nat) (number : Int) : Nat :=
  (number % 2 ^ width).toNat

/-- The number of places that a count shifts by. -/
def places (width : Nat) (count : Int) : Nat :=
  (count % width).toNat

/-- The result of an operation on words of a width, of which division by zero has none. The
left operand of a negation does not matter. -/
def compute (width : Nat) (operation : ArithOp) (left right : Int) : Option Int :=
  match operation with
  | .add => some (wrap width (left + right))
  | .sub => some (wrap width (left - right))
  | .mul => some (wrap width (left * right))
  | .div => if right = 0 then none else some (wrap width (left.tdiv right))
  | .rem => if right = 0 then none else some (left - right * left.tdiv right)
  | .neg => some (wrap width (-right))
  | .shl => some (wrap width (left * 2 ^ places width right))
  | .shr => some (left / 2 ^ places width right)
  | .ushr => some (wrap width (pattern width left / 2 ^ places width right : Nat))
  | .and => some (wrap width (pattern width left &&& pattern width right : Nat))
  | .or => some (wrap width (pattern width left ||| pattern width right : Nat))
  | .xor => some (wrap width (pattern width left ^^^ pattern width right : Nat))

/-- Only a division by zero has no result. -/
theorem compute_eq_none_iff {width : Nat} {operation : ArithOp} {left right : Int} :
    compute width operation left right = none ↔ operation.isDivision = true ∧ right = 0 := by
  cases operation <;> simp [compute, ArithOp.isDivision]

section Patterns

variable {width : Nat} (word : BitVec width)

/-- The pattern of a word is its number without sign. -/
theorem pattern_toInt : pattern width word.toInt = word.toNat := by
  have small : ((word.toNat : Int) % 2 ^ width) = word.toNat :=
    Int.emod_eq_of_lt (by omega) (by exact_mod_cast word.isLt)
  rw [pattern, BitVec.toInt_eq_toNat_bmod]
  have same := Int.bmod_emod (x := (word.toNat : Int)) (m := 2 ^ width)
  push_cast at same
  rw [same, small, Int.toNat_natCast]

/-- A shift to the left multiplies and wraps. -/
theorem toInt_shiftLeft (count : Nat) :
    (word <<< count).toInt = wrap width (word.toInt * 2 ^ count) := by
  rw [BitVec.toInt_shiftLeft, wrap, BitVec.toInt_eq_toNat_bmod, Int.bmod_mul_bmod,
    Nat.shiftLeft_eq]
  push_cast
  rfl

/-- A signed shift to the right divides and rounds down. -/
theorem toInt_sshiftRight (count : Nat) :
    (word.sshiftRight count).toInt = word.toInt / 2 ^ count := by
  rw [BitVec.toInt_sshiftRight, Int.shiftRight_eq_div_pow]
  push_cast
  rfl

/-- An unsigned shift to the right divides the pattern. -/
theorem toInt_ushiftRight (count : Nat) :
    (word >>> count).toInt = wrap width (pattern width word.toInt / 2 ^ count : Nat) := by
  rw [BitVec.toInt_eq_toNat_bmod, BitVec.toNat_ushiftRight, Nat.shiftRight_eq_div_pow,
    pattern_toInt, wrap]

/-- The signed remainder of a count by the width is the number of places. -/
theorem toNat_smod (modulus : BitVec width) (positive : 0 < width)
    (exact : modulus.toInt = width) :
    (word.smod modulus).toNat = places width word.toInt := by
  have below : word.toInt % width < 2 ^ width :=
    calc word.toInt % width < width := Int.emod_lt_of_pos _ (by exact_mod_cast positive)
      _ < 2 ^ width := by exact_mod_cast Nat.lt_two_pow_self
  rw [← pattern_toInt, BitVec.toInt_smod, exact, Int.fmod_eq_emod_of_nonneg _ (by omega), pattern,
    Int.emod_eq_of_lt (Int.emod_nonneg _ (by omega)) below, places]

/-- The remainder of the pattern of a count by the width is the number of places, since the
width divides the number of words. -/
theorem toNat_mod (divides : width ∣ 2 ^ width) :
    word.toNat % width = places width word.toInt := by
  have whole : (width : Int) ∣ 2 ^ width := by exact_mod_cast divides
  have nonneg : 0 ≤ word.toInt % 2 ^ width := Int.emod_nonneg _ (by positivity)
  rw [← pattern_toInt, pattern, places, ← Int.emod_emod_of_dvd word.toInt whole,
    Int.toNat_emod nonneg (by omega), Int.toNat_natCast]

/-- The operations on words themselves. -/
def onWords (operation : ArithOp) (left right : BitVec width) : Option (BitVec width) :=
  match operation with
  | .add => some (left + right)
  | .sub => some (left - right)
  | .mul => some (left * right)
  | .div => if right = 0 then none else some (left.sdiv right)
  | .rem => if right = 0 then none else some (left.srem right)
  | .neg => some (-right)
  | .shl => some (left <<< places width right.toInt)
  | .shr => some (left.sshiftRight (places width right.toInt))
  | .ushr => some (left >>> places width right.toInt)
  | .and => some (left &&& right)
  | .or => some (left ||| right)
  | .xor => some (left ^^^ right)

/-- Words compute what their integers compute. -/
theorem map_toInt_onWords (operation : ArithOp) (left right : BitVec width) :
    (onWords operation left right).map BitVec.toInt =
      compute width operation left.toInt right.toInt := by
  have isZero : right = 0 ↔ right.toInt = 0 := by
    rw [← BitVec.toInt_inj, BitVec.ofNat_eq_ofNat, BitVec.toInt_zero]
  cases operation with
  | add => simp [onWords, compute, wrap, BitVec.toInt_add]
  | sub => simp [onWords, compute, wrap, BitVec.toInt_sub]
  | mul => simp [onWords, compute, wrap, BitVec.toInt_mul]
  | neg => simp [onWords, compute, wrap, BitVec.toInt_neg]
  | div =>
    simp only [onWords, compute, isZero]
    split
    · rfl
    · simp [wrap, BitVec.toInt_sdiv]
  | rem =>
    simp only [onWords, compute, isZero]
    split
    · rfl
    · simp [BitVec.toInt_srem, Int.tmod_def]
  | shl => simp only [onWords, compute, Option.map_some, toInt_shiftLeft]
  | shr => simp only [onWords, compute, Option.map_some, toInt_sshiftRight]
  | ushr => simp only [onWords, compute, Option.map_some, toInt_ushiftRight]
  | and => simp [onWords, compute, wrap, BitVec.toInt_and, pattern_toInt]
  | or => simp [onWords, compute, wrap, BitVec.toInt_or, pattern_toInt]
  | xor => simp [onWords, compute, wrap, BitVec.toInt_xor, pattern_toInt]

end Patterns

/-- The simulation folds 32-bit arithmetic. -/
theorem map_foldInt (operation : ArithOp) (left right : Int32) :
    (Simulation.foldInt operation left right).map Int32.toInt =
      compute 32 operation left.toInt right.toInt := by
  have signed : (right.toBitVec.smod 32#32).toNat = places 32 right.toInt :=
    toNat_smod right.toBitVec 32 (by decide) (by decide)
  have unsigned : right.toBitVec.toNat % 32 = places 32 right.toInt :=
    toNat_mod right.toBitVec (by decide)
  have words : (Simulation.foldInt operation left right).map Int32.toBitVec =
      onWords operation left.toBitVec right.toBitVec := by
    cases operation with
    | div | rem =>
      simp only [Simulation.foldInt, onWords, ← Int32.toBitVec_inj]
      split <;> simp_all
    | shl | shr | ushr =>
      simp [Simulation.foldInt, onWords, BitVec.sshiftRight', signed, unsigned]
    | _ => simp [Simulation.foldInt, onWords]
  calc (Simulation.foldInt operation left right).map Int32.toInt
      = ((Simulation.foldInt operation left right).map Int32.toBitVec).map BitVec.toInt := by
        simp [Function.comp_def]
    _ = compute 32 operation left.toInt right.toInt := by
        rw [words, map_toInt_onWords, Int32.toInt_toBitVec, Int32.toInt_toBitVec]

/-- The simulation folds 64-bit arithmetic between two `long`s, which leaves out the shifts. -/
theorem map_foldLong (operation : ArithOp) (left right : Int64)
    (shifts : operation.isShift = false) :
    (Simulation.foldLong operation left right).map Int64.toInt =
      compute 64 operation left.toInt right.toInt := by
  have words : (Simulation.foldLong operation left right).map Int64.toBitVec =
      onWords operation left.toBitVec right.toBitVec := by
    cases operation with
    | div | rem =>
      simp only [Simulation.foldLong, onWords, ← Int64.toBitVec_inj]
      split <;> simp_all
    | shl | shr | ushr => cases shifts
    | _ => simp [Simulation.foldLong, onWords]
  calc (Simulation.foldLong operation left right).map Int64.toInt
      = ((Simulation.foldLong operation left right).map Int64.toBitVec).map BitVec.toInt := by
        simp [Function.comp_def]
    _ = compute 64 operation left.toInt right.toInt := by
        rw [words, map_toInt_onWords, Int64.toInt_toBitVec, Int64.toInt_toBitVec]

/-- The simulation folds 64-bit shifts, whose count is an `int`. -/
theorem map_foldLongShift (operation : ArithOp) (left : Int64) (count : Int32)
    (shifts : operation.isShift = true) :
    (Simulation.foldLongShift operation left count).map Int64.toInt =
      compute 64 operation left.toInt count.toInt := by
  have signed : (count.toInt64.toBitVec.smod 64#64).toNat = places 64 count.toInt64.toInt :=
    toNat_smod count.toInt64.toBitVec 64 (by decide) (by decide)
  have unsigned : count.toInt64.toBitVec.toNat % 64 = places 64 count.toInt64.toInt :=
    toNat_mod count.toInt64.toBitVec (by decide)
  have words : (Simulation.foldLongShift operation left count).map Int64.toBitVec =
      onWords operation left.toBitVec count.toInt64.toBitVec := by
    cases operation with
    | shl | shr | ushr =>
      simp only [Simulation.foldLongShift, onWords]
      generalize count.toInt64 = extended at signed unsigned
      simp [BitVec.sshiftRight', signed, unsigned]
    | _ => cases shifts
  calc (Simulation.foldLongShift operation left count).map Int64.toInt
      = ((Simulation.foldLongShift operation left count).map Int64.toBitVec).map BitVec.toInt := by
        simp [Function.comp_def]
    _ = compute 64 operation left.toInt count.toInt := by
        rw [words, map_toInt_onWords, Int64.toInt_toBitVec, Int64.toInt_toBitVec,
          Int32.toInt_toInt64]

end ClassTrim.Integers
