/-
Sets of characters in patterns.

A set is kept as its ranges in normal form. Sets under the flag for letters
of either case are closed under case at once, so that membership never asks
for the flags.
-/
import LatticeParsing.Unicode.Fold

namespace LatticeParsing

open Unicode

/-- A set of characters. -/
abbrev CharSet := Ranges

namespace CharSet

/-- The set with one member. -/
def single (c : Char) : CharSet := [(c.toNat, c.toNat)]

/-- The characters from `lo` to `hi`. -/
def range (lo hi : Char) : CharSet := Ranges.characters [(lo.toNat, hi.toNat)]

/-- The members of a string. -/
def ofChars (s : String) : CharSet := .unionAll (s.toList.map single)

/-- The only member of a set that has just one. -/
def single? : CharSet → Option Char
  | [(lo, hi)] => if lo = hi then some (Char.ofNat lo) else none
  | _ => none

/-- The upper- and lowercase letters of ASCII. -/
def asciiLetters : List Nat := (List.range 26).map ('A'.toNat + ·)

/-- The members of a set and the ASCII letters that differ from a member in
case only. -/
def asciiFold (s : CharSet) : CharSet :=
  .normalize (s ++ asciiLetters.flatMap fun n =>
    if s.contains n || s.contains (n + 32) then [(n, n), (n + 32, n + 32)]
    else [])

/-- Whether all members are ASCII characters. -/
def isAscii (s : CharSet) : Bool := s.all fun (_, hi) => hi < 128

theorem contains_single {c d : Char} :
    (single c).contains d.toNat = true ↔ d = c := by
  simp only [single, Ranges.contains, List.any_cons, List.any_nil,
    Bool.or_false, Bool.and_eq_true, decide_eq_true_eq]
  constructor
  · rintro ⟨h, k⟩
    exact Char.le_antisymm (UInt32.le_iff_toNat_le.2 k)
      (UInt32.le_iff_toNat_le.2 h)
  · intro h
    subst h
    exact ⟨Nat.le_refl _, Nat.le_refl _⟩

-- =============================================== the classes of ASCII

/-- The classes that bracket expressions name between colons. -/
def asciiClass? : String → Option CharSet
  | "alnum" =>
    some (.unionAll [range '0' '9', range 'A' 'Z', range 'a' 'z'])
  | "alpha" => some (.union (range 'A' 'Z') (range 'a' 'z'))
  | "ascii" => some (range '\x00' '\x7f')
  | "blank" => some (ofChars "\t ")
  | "cntrl" => some (.union (range '\x00' '\x1f') (single '\x7f'))
  | "digit" => some (range '0' '9')
  | "graph" => some (range '!' '~')
  | "lower" => some (range 'a' 'z')
  | "print" => some (range ' ' '~')
  | "punct" =>
    some (.unionAll [range '!' '/', range ':' '@', range '[' '\x60',
      range '\x7b' '~'])
  | "space" => some (.union (range '\t' '\r') (single ' '))
  | "upper" => some (range 'A' 'Z')
  | "word" =>
    some (.unionAll [range '0' '9', range 'A' 'Z', single '_',
      range 'a' 'z'])
  | "xdigit" =>
    some (.unionAll [range '0' '9', range 'A' 'F', range 'a' 'f'])
  | _ => none

end CharSet

end LatticeParsing
