/-
The UTF-8 encoding of sets of characters.

An automaton over bytes reads a character as one to four bytes. The
characters of a range are cut into blocks, such that the bytes of the
characters of a block are all combinations of some ranges of bytes: the path
of the block.
-/
import LatticeParsing.Unicode.Ranges

namespace LatticeParsing.Encoding

/-- A range of bytes. -/
abbrev ByteRange := Nat × Nat

/-- The bytes of a code point in UTF-8. -/
def utf8Bytes (n : Nat) : List Nat :=
  if n < 0x80 then [n]
  else if n < 0x800 then [0xC0 + n / 0x40, 0x80 + n % 0x40]
  else if n < 0x10000 then
    [0xE0 + n / 0x1000, 0x80 + n / 0x40 % 0x40, 0x80 + n % 0x40]
  else
    [0xF0 + n / 0x40000, 0x80 + n / 0x1000 % 0x40, 0x80 + n / 0x40 % 0x40,
      0x80 + n % 0x40]

/-- Cuts a range where rows of `size` code points begin, and what then is
whole rows where rows of 64 times the size begin, and so on for `levels`
sizes. -/
def cutRows (levels size lo hi : Nat) : Unicode.Ranges :=
  match levels with
  | 0 => [(lo, hi)]
  | levels + 1 =>
    if lo / size = hi / size then [(lo, hi)]
    else
      let first := (lo + size - 1) / size * size
      let stop := (hi + 1) / size * size
      (if lo < first then [(lo, first - 1)] else [])
        ++ (if first < stop then cutRows levels (size * 0x40) first (stop - 1)
            else [])
        ++ (if stop ≤ hi then [(stop, hi)] else [])

/-- The blocks of a range whose members have bytes alike in number. ASCII
characters are a single block. -/
def cutBlocks (lo hi : Nat) : Unicode.Ranges :=
  if hi < 0x80 then [(lo, hi)] else cutRows 3 0x40 lo hi

/-- The members of a range between two code points. -/
def clip (first last : Nat) (r : Nat × Nat) : Unicode.Ranges :=
  let lo := max first r.1
  let hi := min last r.2
  if lo ≤ hi then [(lo, hi)] else []

/-- The blocks of a range. Surrogates are left out. -/
def blocks (r : Nat × Nat) : Unicode.Ranges :=
  (clip 0 0x7F r ++ clip 0x80 0x7FF r ++ clip 0x800 0xD7FF r
    ++ clip 0xE000 0xFFFF r ++ clip 0x10000 0x10FFFF r).flatMap
    fun (lo, hi) => cutBlocks lo hi

/-- The path of a block. -/
def path (block : Nat × Nat) : List ByteRange :=
  (utf8Bytes block.1).zip (utf8Bytes block.2)

/-- The paths of all blocks of a set. -/
def paths (rs : Unicode.Ranges) : List (List ByteRange) :=
  (rs.flatMap blocks).map path

end LatticeParsing.Encoding
