/-
Unsigned numbers written in ASCII digits, with a largest value.

Counts and offsets are 64-bit: a written number above that range is refused,
as is a text without a digit.
-/
namespace LatticeParsing.Text

/-- The value of an ASCII digit. -/
def digit? (c : Char) : Option Nat :=
  if c.isDigit then some (c.toNat - '0'.toNat) else none

/-- The value of a digit string read after the digits already worth `acc`;
none if another character stands in it. -/
def digitsValueFrom? (acc : Nat) : List Char → Option Nat
  | [] => some acc
  | c :: cs => do digitsValueFrom? (10 * acc + (← digit? c)) cs

/-- The value of a non-empty digit string. -/
def digitsValue? (cs : List Char) : Option Nat :=
  if cs.isEmpty then none else digitsValueFrom? 0 cs

/-- The largest count or offset, 2^64 - 1. -/
def maxCount : Nat := 18446744073709551615

/-- A count: digits, worth at most `maxCount`. -/
def count? (cs : List Char) : Option Nat :=
  (digitsValue? cs).filter (· ≤ maxCount)

/-- A count that may carry a plus sign. -/
def signedCount? : List Char → Option Nat
  | '+' :: cs => count? cs
  | cs => count? cs

end LatticeParsing.Text
