/-
Blank characters and the cutting of text at them.

A blank is a character with the Unicode property White_Space. Rule lines,
sentences and lattice texts are all cut at blanks, so every reader of the
library takes its notion of a blank from here. Text is handled as a list of
characters; byte lengths, which some messages report, are those of the
UTF-8 encoding.
-/
namespace LatticeParsing.Text

-- ============================================================ characters

/-- A character with the Unicode property White_Space. -/
def isBlank (c : Char) : Bool :=
  let n := c.toNat
  (9 ≤ n && n ≤ 13) || n == 0x20 || n == 0x85 || n == 0xA0 || n == 0x1680
    || (0x2000 ≤ n && n ≤ 0x200A) || n == 0x2028 || n == 0x2029
    || n == 0x202F || n == 0x205F || n == 0x3000

-- =============================================================== cutting

/-- The text without the blanks at its two ends. -/
def trim (cs : List Char) : List Char :=
  ((cs.dropWhile isBlank).reverse.dropWhile isBlank).reverse

/-- The words of a text: its longest blank-free runs, in order. -/
def words (cs : List Char) : List (List Char) :=
  (cs.splitOnP isBlank).filter fun w => !w.isEmpty

/-- The words of a string. -/
def stringWords (s : String) : List String :=
  (words s.toList).map String.ofList

/-- True of a text that is empty or holds blanks only. -/
def isAllBlank (cs : List Char) : Bool := cs.all isBlank

/-- A line without the carriage return that closes it, if there is one. -/
def dropFinalReturn (line : List Char) : List Char :=
  if line.getLast? = some '\r' then line.dropLast else line

/-- The lines of a text. A line ends at a line feed, and a carriage return
just before the line feed belongs to the ending; text after the last line
feed is a line of its own unless it is empty, and keeps its returns. -/
def lines (cs : List Char) : List (List Char) :=
  let segments := cs.splitOnP (· == '\n')
  let last := segments.getLast?.getD []
  segments.dropLast.map dropFinalReturn
    ++ (if last.isEmpty then [] else [last])

-- ================================================================ bytes

/-- The number of bytes a text takes in UTF-8. -/
def byteLength (cs : List Char) : Nat := (cs.map Char.utf8Size).foldr (· + ·) 0

end LatticeParsing.Text
