/-
Patterns over words.

A pattern describes the stretches of a word that it spans. It is built from
character sets and from anchors, which span nothing and look at what stands
before and after them, by concatenation, choice and repetition. Groups have
numbers, and a repetition can be lazy; neither makes a difference to what a
pattern spans, but two patterns that differ there are not the same.
-/
import LatticeParsing.Pattern.CharSet
import LatticeParsing.Unicode.Property

namespace LatticeParsing

-- ============================================================= anchors

/-- Which places next to the characters of words an anchor accepts. -/
inductive WordEdge where
  /-- A word begins or ends here. -/
  | boundary
  /-- No word begins or ends here. -/
  | noBoundary
  /-- A word begins here. -/
  | start
  /-- A word ends here. -/
  | stop
  /-- No character of a word stands before. -/
  | startHalf
  /-- No character of a word stands after. -/
  | stopHalf
  deriving DecidableEq, Repr

/-- A condition on a place in a word. -/
inductive Anchor where
  | textStart
  | textEnd
  | lineStart
  | lineEnd
  /-- As `lineStart`, where a carriage return ends a line too. -/
  | returnLineStart
  /-- As `lineEnd`, where a carriage return ends a line too. -/
  | returnLineEnd
  /-- A condition on word edges; `ascii` restricts the characters of words
  to ASCII. -/
  | word (edge : WordEdge) (ascii : Bool)
  deriving DecidableEq, Repr

/-- The condition on word edges, given whether characters of words stand
before and after. -/
def WordEdge.holds : WordEdge → Bool → Bool → Bool
  | boundary, before, after => before != after
  | noBoundary, before, after => before == after
  | start, before, after => !before && after
  | stop, before, after => before && !after
  | startHalf, before, _ => !before
  | stopHalf, _, after => !after

/-- A character of words in ASCII. -/
def isAsciiWord (c : Char) : Bool := c.isAlphanum || c == '_'

/-- Whether an anchor accepts a place, given the characters next to it. -/
def Anchor.holds (before after : Option Char) : Anchor → Bool
  | textStart => before.isNone
  | textEnd => after.isNone
  | lineStart => before.isNone || before == some '\n'
  | lineEnd => after.isNone || after == some '\n'
  | returnLineStart =>
    before.isNone || before == some '\n'
      || (before == some '\r' && after != some '\n')
  | returnLineEnd =>
    after.isNone || after == some '\r'
      || (after == some '\n' && before != some '\r')
  | word edge ascii =>
    let inWord := if ascii then isAsciiWord else Unicode.isWord
    edge.holds (before.any inWord) (after.any inWord)

-- ============================================================ patterns

/-- A pattern over the characters of a word. -/
inductive Pattern where
  /-- Spans nothing, anywhere. -/
  | empty
  /-- Spans the given characters. -/
  | literal (w : List Char)
  /-- Spans one character of the set. -/
  | set (s : CharSet)
  /-- Spans nothing, at the places that the anchor accepts. -/
  | anchor (a : Anchor)
  /-- Spans what the pattern inside a numbered group does. -/
  | group (number : Nat) (p : Pattern)
  | cat (p q : Pattern)
  | alt (p q : Pattern)
  /-- Spans `p` between `min` and `max` times; `none` sets no upper
  bound. -/
  | times (p : Pattern) (min : Nat) (max : Option Nat) (isLazy : Bool)
  deriving DecidableEq, Repr

end LatticeParsing
