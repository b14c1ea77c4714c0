/-
The report on a parse as text.

The report begins with the input, cut off after eighty characters, and goes
on in sections: the passes by width, the cells with items that have moved,
the constituents, the goal and the totals. It is a list of lines. The times
that were measured are given to it as text.
-/
import LatticeParsing.Report.Palette
import LatticeParsing.Report.Summary
import LatticeParsing.Cost.Shortest

namespace LatticeParsing

/-- The times of a parse, as text. -/
structure Timing where
  /-- The time taken by the pass with the given width. -/
  pass : Nat → String
  total : String

namespace Report

variable (p : Palette)

-- ============================================================== passes

/-- The line for a pass. -/
def passLine (t : Timing) (n : PassCounts) : String :=
  let made := toString n.constituents ++ " super nodes"
  "  " ++ p.paint .blue ("Width " ++ toString n.width ++ ":") ++ " "
    ++ (if 0 < n.constituents then p.paint .green ("✓ " ++ made)
        else p.paint .dim ("✗ " ++ made))
    ++ "  "
    ++ p.paint .dim (toString n.items ++ " dot items, "
        ++ toString n.derivations ++ " derivations")
    ++ " " ++ p.paint .dim (t.pass n.width)

-- =============================================================== cells

/-- How many cells a report lists. -/
def maxCells : Nat := 20

/-- The line for a cell. -/
def cellLine (c : CellSummary) : String :=
  "  " ++ p.paint .yellow ("g" ++ toString c.grammar ++ " ("
      ++ toString c.start ++ "," ++ toString c.stop ++ ")")
    ++ " " ++ p.paint .blue (toString c.items ++ " items")
    ++ " " ++ p.paint .dim (toString c.complete ++ " complete")

/-- The lines for the cells over spans that are not empty. -/
def cellLines (cells : List CellSummary) : List String :=
  let moved := cells.filter fun c => c.start < c.stop
  if moved.isEmpty then
    ["  " ++ p.paint .dim "No dot item moved past its seed"]
  else
    (moved.take maxCells).map (cellLine p)
      ++ (if maxCells < moved.length then
          ["  " ++ p.paint .dim
            ("... +" ++ toString (moved.length - maxCells) ++ " more")]
        else [])

-- ======================================================== constituents

/-- The lines for a constituent with its number. -/
def constituentLines (c : ConstituentSummary) (number : Nat) :
    List String :=
  ["  " ++ p.paint .dim ("[" ++ toString number ++ "]") ++ " "
      ++ p.paint .bold (p.paint .green c.lhs) ++ " " ++ p.paint .dim "│" ++ " "
      ++ p.paint .yellow ("span " ++ toString c.start ++ ".."
          ++ toString c.stop)]
    ++ (c.rules.map fun r =>
        "      " ++ p.paint .dim "rule:" ++ " " ++ p.paint .cyan r)
    ++ (if Cost.zero < c.cheapest then
        ["      " ++ p.paint .dim "source cost:" ++ " " ++ c.cheapest.display]
      else [])

/-- The lines for all constituents, or hints why there are none. -/
def constituentsLines (cs : List ConstituentSummary) : List String :=
  if cs.isEmpty then
    [p.paint .dim "  No constituents built", "",
      p.paint .yellow "Possible reasons:",
      "  • No rule's source side matches the input words",
      "  • --span-limit is shorter than the rules need", "",
      p.paint .dim
        "  Tip: Set RUST_LOG=dotchart=trace to see every dot item"]
  else cs.zipIdx.flatMap fun (c, number) => constituentLines p c number

-- ============================================================== report

/-- How many characters of the input a report shows. -/
def maxPreview : Nat := 80

/-- The input without the blanks around it, cut off. -/
def preview (input : String) : String :=
  String.ofList ((Text.trim input.toList).take maxPreview)

/-- The line that tells whether the goal was reached. -/
def goalLine (goal : String) (reached : Bool) : String :=
  "  " ++ (if reached then
      p.paint .bold (p.paint .green ("✓ " ++ goal ++ " covers the input"))
    else p.paint .red ("✗ no " ++ goal ++ " over the whole input"))

/-- The line with the totals. -/
def totalLine (t : Timing) (s : Summary) : String :=
  "  Total: " ++ p.paint .green t.total ++ "  │  Dot items: "
    ++ p.paint .cyan (toString s.items) ++ "  │  Seeded: "
    ++ p.paint .dim (toString s.seeded)

/-- The lines of a report. -/
def lines (t : Timing) (input goal : String) (s : Summary) : List String :=
  ["", p.paint .bold
      (p.paint .cyan ("⚙  Parsing: \"" ++ preview input ++ "\"")),
    "", p.heading "Passes"] ++ s.passes.map (passLine p t)
  ++ ["", p.heading "Dot cells"] ++ cellLines p s.cells
  ++ ["", p.heading "Constituents"] ++ constituentsLines p s.constituents
  ++ ["", p.heading "Goal", goalLine p goal s.goalReached]
  ++ ["", p.heading "Timing", totalLine p t s, ""]

end Report

/-- A report as text, every line with its line feed. -/
def Summary.report (p : Palette) (t : Timing) (input goal : String)
    (s : Summary) : String :=
  String.join ((Report.lines p t input goal s).map fun line => line ++ "\n")

end LatticeParsing
