/-!
# The shortest decimal text of a binary number

A finite binary number stands for every real that rounds to it. This module
writes the decimal with the fewest digits in that interval: it looks for the
largest power of ten with a multiple inside, and takes of the two multiples
around the number the nearer one. All arithmetic is exact, on natural numbers.

The text is positional: there is never an exponent, and a whole number has no
decimal point. Of two equally near decimals the upper one is written.
-/

namespace ClassTrim.Text.Shortest

/-- The layout of a binary interchange format: a sign bit, then the exponent
field, then the fraction field. -/
structure Layout where
  exponentBits : Nat
  fractionBits : Nat

/-- The 32-bit format. -/
def single : Layout := ⟨8, 23⟩

/-- The 64-bit format. -/
def double : Layout := ⟨11, 52⟩

namespace Layout

/-- The exponent field of a bit pattern. -/
def exponent (layout : Layout) (bits : Nat) : Nat :=
  bits / Nat.pow 2 layout.fractionBits % Nat.pow 2 layout.exponentBits

/-- The fraction field of a bit pattern. -/
def fraction (layout : Layout) (bits : Nat) : Nat :=
  bits % Nat.pow 2 layout.fractionBits

/-- Whether the sign bit is set. -/
def negative (layout : Layout) (bits : Nat) : Bool :=
  bits / Nat.pow 2 (layout.fractionBits + layout.exponentBits) % 2 == 1

/-- The exponent of the last place is the exponent field less this offset. -/
def offset (layout : Layout) : Nat :=
  Nat.pow 2 (layout.exponentBits - 1) - 1 + layout.fractionBits

end Layout

/-- A positive number `mantissa * 2 ^ scale`, with what bounds its rounding
interval: `lowest` says that the gap below is half the gap above, which happens
where the exponent has just grown. -/
structure Magnitude where
  mantissa : Nat
  scale : Int
  lowest : Bool

/-- The number that a finite bit pattern stands for, without its sign. -/
def magnitude (layout : Layout) (bits : Nat) : Magnitude :=
  let exponent := layout.exponent bits
  let fraction := layout.fraction bits
  if exponent = 0 then
    ⟨fraction, 1 - (layout.offset : Int), false⟩
  else
    ⟨Nat.pow 2 layout.fractionBits + fraction, (exponent : Int) - layout.offset,
      fraction = 0 && 1 < exponent⟩

/-- A decimal `digits * 10 ^ place`. -/
structure Decimal where
  digits : Nat
  place : Int

/-- The better of the two multiples of `10 ^ place` around a number, if one of
them rounds to that number. All four quantities are counted in quarters of the
last binary place; a number with an even mantissa owns the ends of its
interval. -/
def atPlace (number : Magnitude) (place : Int) : Option Nat :=
  let quarters := 4 * number.mantissa
  let up := Nat.pow 2 (number.scale - 2).toNat * Nat.pow 10 (-place).toNat
  let unit := Nat.pow 2 (2 - number.scale).toNat * Nat.pow 10 place.toNat
  let value := quarters * up
  let low := (quarters - if number.lowest then 1 else 2) * up
  let high := (quarters + 2) * up
  let closed := number.mantissa % 2 = 0
  let below := value / unit
  let above := below + 1
  let belowFits := low < below * unit || (closed && low = below * unit)
  let aboveFits := above * unit < high || (closed && above * unit = high)
  if belowFits && (!aboveFits || 2 * (value - below * unit) < unit) then some below
  else if aboveFits then some above
  else none

/-- Tries `steps` places downwards from `place`. -/
def search (number : Magnitude) (place : Int) : Nat → Decimal
  | 0 => ⟨0, place⟩
  | steps + 1 =>
    match atPlace number place with
    | some digits => ⟨digits, place⟩
    | none => search number (place - 1) steps

/-- The shortest decimal of a positive number. No number of the format reaches
`10 ^ top`, and at the exact last binary place the number itself is a decimal,
so the search meets a fitting place before its steps run out. -/
def decimal (layout : Layout) (number : Magnitude) : Decimal :=
  let top := Nat.pow 2 (layout.exponentBits - 1)
  search number top (top + layout.offset + 1)

/-- Positional text of a decimal. -/
def positional (value : Decimal) : String :=
  let digits := Nat.toDigits 10 value.digits
  if 0 ≤ value.place then
    String.ofList (digits ++ List.replicate value.place.toNat '0')
  else
    let places := (-value.place).toNat
    let padded := List.replicate (places + 1 - digits.length) '0' ++ digits
    let whole := padded.length - places
    String.ofList (padded.take whole ++ '.' :: padded.drop whole)

/-- The text of a bit pattern: the shortest decimal that reads back, with a
minus sign where the sign bit is set, and the names of the values that are no
numbers. -/
def render (layout : Layout) (bits : Nat) : String :=
  let sign := if layout.negative bits then "-" else ""
  if layout.exponent bits + 1 = Nat.pow 2 layout.exponentBits then
    if layout.fraction bits = 0 then sign ++ "inf" else "NaN"
  else
    let number := magnitude layout bits
    if number.mantissa = 0 then sign ++ "0" else sign ++ positional (decimal layout number)

end ClassTrim.Text.Shortest
