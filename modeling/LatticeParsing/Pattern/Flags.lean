/-
The flags that a pattern's text can set, and the text that it lets a reader
pass over.

Flags hold from where they are set to the end of the group around them.
With the flag `extended`, blanks and comments between the parts of a
pattern mean nothing: a comment runs from a number sign through the end of
its line.
-/
import LatticeParsing.Pattern.Basic

namespace LatticeParsing

namespace Pattern

-- =============================================================== flags

/-- How the text of a pattern is read. -/
structure Flags where
  /-- Letters stand for all letters of their case orbit. -/
  caseless : Bool := false
  /-- The line anchors accept the ends of every line. -/
  multiLine : Bool := false
  /-- The dot stands for a line feed too. -/
  dotAll : Bool := false
  /-- A carriage return ends a line too. -/
  returnLines : Bool := false
  /-- Classes and word edges go by Unicode, not by ASCII. -/
  unicode : Bool := true
  /-- Blanks and comments mean nothing. -/
  extended : Bool := false
  /-- Repetitions are lazy without a mark and greedy with one. -/
  swapLazy : Bool := false
  deriving DecidableEq, Repr

namespace Flags

/-- Switches the flag with this letter on or off. -/
def set? (f : Flags) (letter : Char) (on : Bool) : Option Flags :=
  match letter with
  | 'i' => some { f with caseless := on }
  | 'm' => some { f with multiLine := on }
  | 's' => some { f with dotAll := on }
  | 'R' => some { f with returnLines := on }
  | 'u' => some { f with unicode := on }
  | 'x' => some { f with extended := on }
  | 'U' => some { f with swapLazy := on }
  | _ => none

-- ======================================================== ignored text

/-- Passes over blanks and comments. -/
def skipFrom (inComment : Bool) : List Char → List Char
  | [] => []
  | c :: cs =>
    if inComment then skipFrom (c != '\n') cs
    else if Text.isBlank c then skipFrom false cs
    else if c == '#' then skipFrom true cs
    else c :: cs

/-- Passes over the text that means nothing under these flags. -/
def skip (f : Flags) (cs : List Char) : List Char :=
  if f.extended then skipFrom false cs else cs

/-- Looks past blanks for the next character. A number sign is passed over
once, its comment is not. -/
def peekFrom (inComment : Bool) : List Char → Option Char
  | [] => none
  | c :: cs =>
    if Text.isBlank c then peekFrom inComment cs
    else if !inComment && c == '#' then peekFrom true cs
    else some c

/-- The character that a bracket expression finds after a hyphen; where
only ignored text follows, its first character. -/
def peek (f : Flags) (cs : List Char) : Option Char :=
  if f.extended then (peekFrom false cs).or cs.head? else cs.head?

-- ================================================= sets under the flags

/-- A set under the flag `caseless`. -/
def foldSet (f : Flags) (s : CharSet) : CharSet :=
  if !f.caseless then s
  else if f.unicode then s.fold
  else CharSet.asciiFold s

/-- The complement, which only patterns over all of Unicode have. -/
def negate? (f : Flags) (negated : Bool) (s : CharSet) : Option CharSet :=
  if !negated then some s
  else if f.unicode then some s.compl
  else none

/-- What the dot stands for. -/
def dot? (f : Flags) : Option CharSet :=
  if !f.unicode then none
  else if f.dotAll then some (.compl [])
  else if f.returnLines then some (.compl (CharSet.ofChars "\r\n"))
  else some (.compl (CharSet.single '\n'))

/-- What the caret stands for. -/
def caret (f : Flags) : Anchor :=
  if !f.multiLine then .textStart
  else if f.returnLines then .returnLineStart
  else .lineStart

/-- What the dollar sign stands for. -/
def dollar (f : Flags) : Anchor :=
  if !f.multiLine then .textEnd
  else if f.returnLines then .returnLineEnd
  else .lineEnd

end Flags

end Pattern

end LatticeParsing
