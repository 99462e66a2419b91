/-!
# Elapsed time with two decimals

A duration is a number of nanoseconds. It is written in the largest unit that
it reaches, with two decimals; a tie goes to the even digit. The unit is chosen
before rounding, so a duration just below a millisecond may read
"1000.00" microseconds.
-/

namespace ClassTrim.Text.Elapsed

/-- The quotient rounded to the nearest natural number, a half to the even
neighbour. -/
def roundHalfEven (value unit : Nat) : Nat :=
  let whole := value / unit
  let rest := value % unit
  if 2 * rest < unit || (2 * rest = unit && whole % 2 = 0) then whole else whole + 1

/-- The unit of a duration, in nanoseconds, and its name. -/
def unit (nanoseconds : Nat) : Nat × String :=
  if 1000000000 ≤ nanoseconds then (1000000000, "s")
  else if 1000000 ≤ nanoseconds then (1000000, "ms")
  else if 1000 ≤ nanoseconds then (1000, "µs")
  else (1, "ns")

/-- A number of hundredths as a decimal with two places. -/
def hundredths (count : Nat) : String :=
  let cents := count % 100
  Nat.repr (count / 100) ++ "." ++ (if cents < 10 then "0" else "") ++ Nat.repr cents

/-- The text of a duration. -/
def render (nanoseconds : Nat) : String :=
  let (size, name) := unit nanoseconds
  hundredths (roundHalfEven (100 * nanoseconds) size) ++ name

end ClassTrim.Text.Elapsed
