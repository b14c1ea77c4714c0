/-
Measured times as text.

A time is written in the largest unit in which it is at least one, with the
digits of a fraction as far as they matter.
-/
namespace LatticeParsing

/-- A number of thousandths, millionths and so on: `places` digits after the
point, without the zeros at their end. -/
def fractionText (places n : Nat) : String :=
  let digits := (Nat.toDigits 10 n)
  let padded := List.replicate (places - digits.length) '0' ++ digits
  let kept := (padded.reverse.dropWhile (· == '0')).reverse
  if kept.isEmpty then "" else "." ++ String.ofList kept

/-- A time in nanoseconds as text. -/
def durationText (nanos : Nat) : String :=
  let inUnit := fun (places : Nat) (unit : String) =>
    let size := Nat.pow 10 places
    toString (nanos / size) ++ fractionText places (nanos % size) ++ unit
  if Nat.pow 10 9 ≤ nanos then inUnit 9 "s"
  else if Nat.pow 10 6 ≤ nanos then inUnit 6 "ms"
  else if Nat.pow 10 3 ≤ nanos then inUnit 3 "µs"
  else toString nanos ++ "ns"

end LatticeParsing
