/-
Labels read as patterns over whole words.

A label is set between `^(?:` and `)$` and the whole is read as a pattern.
A label that does not give a pattern in this way stands for itself. The
label is set in as it is written: `a)|(?:b` closes the group around it and
opens another, and gives a pattern although it has no reading of its own.

What a pattern is and where it is found is up to the engine that reads it.
The engine is a parameter: what is shown of grammars whose labels are
patterns holds whatever the engine does. The patterns of this library make
the engine that runs (`PatternEngine.standard`).
-/
import LatticeParsing.Pattern.Reader
import LatticeParsing.Pattern.Match

namespace LatticeParsing

-- ============================================================== engines

/-- What reads patterns and searches words for them. Not every text is a
pattern. -/
structure PatternEngine where
  Compiled : Type
  read? : List Char → Option Compiled
  search : Compiled → List Char → Bool

/-- The engine of this library's patterns. -/
abbrev PatternEngine.standard : PatternEngine where
  Compiled := Pattern
  read? := Pattern.read?
  search := Pattern.search

-- =============================================================== labels

variable {E : PatternEngine}

/-- What a label asks of a word. -/
inductive LabelPattern (E : PatternEngine) where
  /-- The pattern spans a stretch of the word. -/
  | search (p : E.Compiled)
  /-- The word is the label. -/
  | exact (word : String)

namespace LabelPattern

/-- A label between anchors. -/
def anchored (label : List Char) : List Char :=
  "^(?:".toList ++ label ++ ")$".toList

/-- The label as a pattern, or as the word it is. -/
def ofLabel (E : PatternEngine) (label : String) : LabelPattern E :=
  match E.read? (anchored label.toList) with
  | some p => search p
  | none => exact label

/-- Whether a word is what the label asks for. -/
def accepts : LabelPattern E → String → Bool
  | search p, w => E.search p w.toList
  | exact label, w => w == label

end LabelPattern

end LatticeParsing
