/-
Items: rules that have been applied in part.

An item is anchored at a span. The labels on the way from the root of the
prefix tree to its position have been matched over the span, terminals by
arcs of the lattice and nonterminals by constituents, its antecedents. Items
are never changed; matching one more symbol makes a new item.
-/
import LatticeParsing.Grammar.Position
import LatticeParsing.Lattice.Basic

namespace LatticeParsing

-- =============================================================== paths

/-- A step of the path that an item has matched. -/
inductive PathStep where
  | terminal (label : Symbol)
  | nonterminal
  deriving DecidableEq, Repr

/-- The steps that an item has matched and the cost of its arcs. Crossing a
constituent costs nothing. -/
structure SourcePath where
  cost : Cost := .zero
  steps : List PathStep := []
  deriving DecidableEq

namespace SourcePath

/-- The path continued over an arc. -/
def crossArc (p : SourcePath) (a : Arc) : SourcePath :=
  ⟨p.cost + a.cost, p.steps ++ [.terminal a.label]⟩

/-- The path continued over a constituent. -/
def crossConstituent (p : SourcePath) : SourcePath :=
  ⟨p.cost, p.steps ++ [.nonterminal]⟩

/-- The labels of the arcs on the path. -/
def terminals (p : SourcePath) : List Symbol :=
  p.steps.filterMap fun step =>
    match step with
    | .terminal label => some label
    | .nonterminal => none

/-- Whether two paths have the same cost and the same steps. Costs are
compared as numbers: a NaN differs from every cost, and the two zeros are
equal. -/
def agrees (p q : SourcePath) : Bool :=
  p.cost == q.cost && p.steps == q.steps

end SourcePath

-- =============================================================== items

/-- A rule applied in part over the span from `start` to `stop`. -/
structure Item where
  start : Nat
  stop : Nat
  position : Position
  antecedents : List Nat := []
  path : SourcePath := {}

namespace Item

/-- The item moved to a position over an arc, up to node `stop`. -/
def crossArc (x : Item) (a : Arc) (position : Position) (stop : Nat) : Item :=
  { x with stop, position, path := x.path.crossArc a }

/-- The item moved to a position over a constituent, up to node `stop`. -/
def crossConstituent (x : Item) (id : Nat) (position : Position)
    (stop : Nat) : Item :=
  { x with
    stop, position
    antecedents := x.antecedents ++ [id]
    path := x.path.crossConstituent }

/-- A line that describes the item. -/
def display (x : Item) : String :=
  "DOTNODE i=" ++ toString x.start ++ " j=" ++ toString x.stop ++ " #rules="
    ++ toString x.position.rules.length ++ " #tails="
    ++ toString x.antecedents.length

end Item

end LatticeParsing
