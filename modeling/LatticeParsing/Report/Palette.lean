/-
Colours in reports.

A report is written for a terminal with escape sequences, or plain. The
palette decides once; the report asks it for every piece of text.
-/
namespace LatticeParsing

/-- Whether escape sequences are written. -/
structure Palette where
  enabled : Bool
  deriving DecidableEq, Repr

/-- A way to set off text. -/
inductive TextStyle where
  | green
  | yellow
  | blue
  | red
  | cyan
  | gray
  | bold
  | dim
  deriving DecidableEq, Repr

/-- The number of a style in an escape sequence. -/
def TextStyle.code : TextStyle → String
  | green => "32"
  | yellow => "33"
  | blue => "34"
  | red => "31"
  | cyan => "36"
  | gray => "90"
  | bold => "1"
  | dim => "2"

namespace Palette

/-- Text in a style. -/
def paint (p : Palette) (style : TextStyle) (s : String) : String :=
  if p.enabled then "\x1b[" ++ style.code ++ "m" ++ s ++ "\x1b[0m" else s

/-- A heading. -/
def heading (p : Palette) (title : String) : String :=
  p.paint .gray ("━━━ " ++ title ++ " ━━━")

end Palette

end LatticeParsing
