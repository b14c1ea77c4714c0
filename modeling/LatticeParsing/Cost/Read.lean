/-
Reading costs from text.

A cost is written as a decimal number, with an optional sign, point and
exponent, or as the name of an infinity or a NaN, whose letters may have
either case. The value is the 32-bit number nearest to the number that is
written, an exact half going to the even neighbour.
-/
import LatticeParsing.Cost.Basic
import LatticeParsing.Text.Number

namespace LatticeParsing.Cost

open Text

/-- A decimal number without its sign: `digits` times ten to the power of
`exponent`. -/
structure Decimal where
  digits : List Char
  exponent : Int
  deriving DecidableEq, Repr

/-- The digits behind a decimal point, none if there is no point, and what
is left. -/
def fraction : List Char → List Char × List Char
  | '.' :: cs => (cs.takeWhile Char.isDigit, cs.dropWhile Char.isDigit)
  | cs => ([], cs)

/-- The exponent after the letter `e`: an optional sign and digits. -/
def exponent? : List Char → Option Int
  | '-' :: cs => (digitsValue? cs).map fun (n : Nat) => -(n : Int)
  | '+' :: cs => (digitsValue? cs).map fun (n : Nat) => (n : Int)
  | cs => (digitsValue? cs).map fun (n : Nat) => (n : Int)

/-- The exponent at the end of a number; zero if nothing is left. -/
def exponentPart? : List Char → Option Int
  | [] => some 0
  | c :: cs => if c == 'e' || c == 'E' then exponent? cs else none

/-- Reads a decimal number without sign. At least one digit stands before
or after the point. -/
def decimal? (cs : List Char) : Option Decimal := do
  let whole := cs.takeWhile Char.isDigit
  let (behind, rest) := fraction (cs.dropWhile Char.isDigit)
  let exponent ← exponentPart? rest
  if (whole ++ behind).isEmpty then none
  else return ⟨whole ++ behind, exponent - behind.length⟩

/-- The cost nearest to a decimal number. Numbers far outside the range of
costs are settled by the place of their first digit. -/
def Decimal.toCost (d : Decimal) : Cost :=
  let digits := d.digits.dropWhile (· == '0')
  let value := (digitsValueFrom? 0 digits).getD 0
  let places : Int := digits.length + d.exponent
  if value = 0 || places < -50 then zero
  else if 50 < places then infinite
  else Float32.ofScientific value (d.exponent < 0) d.exponent.natAbs

/-- The names of infinities and NaNs. -/
def named? (cs : List Char) : Option Cost :=
  match String.ofList (cs.map Char.toLower) with
  | "inf" | "infinity" => some infinite
  | "nan" => some (Float32.ofBits 0x7fc00000)
  | _ => none

/-- Reads a cost without sign. -/
def unsigned? (cs : List Char) : Option Cost :=
  (named? cs).or ((decimal? cs).map Decimal.toCost)

/-- Reads a cost. -/
def ofText? : List Char → Option Cost
  | '-' :: cs => (unsigned? cs).map fun c => -c
  | '+' :: cs => unsigned? cs
  | cs => unsigned? cs

end LatticeParsing.Cost
