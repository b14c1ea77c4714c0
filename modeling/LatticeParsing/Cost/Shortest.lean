/-
Writing costs with the fewest digits.

A finite cost is `m * 2 ^ q` for natural `m`, and the real numbers that are
read back as it form an interval around it, whose ends belong to it when
`m` is even. The cost is written with the fewest digits of any decimal in
the interval, and among decimals of that length as the nearest to the cost,
the greater of two that are equally near. No exponent is ever written.
-/
import LatticeParsing.Cost.Basic

namespace LatticeParsing.Cost

-- ========================================================= the interval

/-- The numbers that are read back as a positive cost, all in units of
`2 ^ unit`: the cost itself and the ends of the interval, which belong to
it if `closed`. -/
structure Interval where
  low : Nat
  value : Nat
  high : Nat
  unit : Int
  closed : Bool
  deriving DecidableEq, Repr

/-- The interval around the cost with these bits, sign aside. The distance
to the next cost below is half as great at a power of two. -/
def intervalOfBits (bits : Nat) : Interval :=
  let field : Nat := bits / Nat.pow 2 23 % Nat.pow 2 8
  let fraction : Nat := bits % Nat.pow 2 23
  let m := if field = 0 then fraction else fraction + Nat.pow 2 23
  let q : Int := if field = 0 then -149 else (field : Int) - 150
  let below : Nat := if fraction = 0 && 1 < field then 1 else 2
  ⟨4 * m - below, 4 * m, 4 * m + 2, q - 2, m % 2 = 0⟩

-- ============================================================ decimals

/-- A decimal number `coefficient * 10 ^ exponent`. -/
structure Grid where
  coefficient : Nat
  exponent : Int
  deriving DecidableEq, Repr

/-- The numerator and denominator of `base ^ e`. -/
def powerParts (base : Nat) (e : Int) : Nat × Nat :=
  if 0 ≤ e then (Nat.pow base e.toNat, 1) else (1, Nat.pow base (-e).toNat)

/-- Compares `c * 10 ^ e` with `n * 2 ^ unit`. -/
def compareParts (c : Nat) (e : Int) (n : Nat) (unit : Int) : Ordering :=
  let (tenNum, tenDen) := powerParts 10 e
  let (twoNum, twoDen) := powerParts 2 unit
  compare (c * tenNum * twoDen) (n * twoNum * tenDen)

/-- Whether a decimal lies in the interval. -/
def Interval.contains (i : Interval) (g : Grid) : Bool :=
  let toLow := compareParts g.coefficient g.exponent i.low i.unit
  let toHigh := compareParts g.coefficient g.exponent i.high i.unit
  (toLow == .gt || (i.closed && toLow == .eq))
    && (toHigh == .lt || (i.closed && toHigh == .eq))

/-- The greatest multiple of `10 ^ e` that is not above the value. -/
def Interval.floor (i : Interval) (e : Int) : Nat :=
  let (tenNum, tenDen) := powerParts 10 e
  let (twoNum, twoDen) := powerParts 2 i.unit
  i.value * twoNum * tenDen / (twoDen * tenNum)

/-- Whether the value is nearer to `c * 10 ^ e` than to
`(c + 1) * 10 ^ e`. -/
def Interval.isNearerBelow (i : Interval) (c : Nat) (e : Int) : Bool :=
  compareParts (2 * c + 1) e (2 * i.value) i.unit == .gt

/-- The decimal in the interval nearest to the value among the multiples of
`10 ^ e`. -/
def Interval.onGrid? (i : Interval) (e : Int) : Option Grid :=
  let c := i.floor e
  let below : Grid := ⟨c, e⟩
  let above : Grid := ⟨c + 1, e⟩
  match i.contains below, i.contains above with
  | true, true => some (if i.isNearerBelow c e then below else above)
  | true, false => some below
  | false, true => some above
  | false, false => none

/-- The decimal with the fewest digits in the interval. Grids are tried from
coarse to fine; the finest tells all costs apart. -/
def Interval.shortest (i : Interval) : Grid :=
  ((List.range 100).findSome? fun k : Nat => i.onGrid? (45 - Int.ofNat k)).getD
    ⟨0, 0⟩

-- ============================================================= writing

/-- The digits of a natural number. -/
def natDigits (n : Nat) : List Char := Nat.toDigits 10 n

/-- A decimal in positional notation. -/
def Grid.positional (g : Grid) : String :=
  let digits := natDigits g.coefficient
  if 0 ≤ g.exponent then
    String.ofList (digits ++ List.replicate g.exponent.toNat '0')
  else
    let places := (-g.exponent).toNat
    let padded := List.replicate (places + 1 - digits.length) '0' ++ digits
    let cut := padded.length - places
    String.ofList (padded.take cut ++ '.' :: padded.drop cut)

/-- A cost as text. -/
def display (c : Cost) : String :=
  let bits := c.toBits.toNat
  let sign := if bits < Nat.pow 2 31 then "" else "-"
  let magnitude := bits % Nat.pow 2 31
  if c.isNaN then "NaN"
  else if magnitude = 0x7f800000 then sign ++ "inf"
  else if magnitude = 0 then sign ++ "0"
  else sign ++ (intervalOfBits magnitude).shortest.positional

end LatticeParsing.Cost
