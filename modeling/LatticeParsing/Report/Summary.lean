/-
What is told of a parse.

A summary lists the constituents in the order in which they were found, with
their rules as text and the cost of the cheapest path on which one of them
was found, and counts the items of every cell that has any.
-/
import LatticeParsing.Chart.Run
import LatticeParsing.Cost.Basic

namespace LatticeParsing

-- ======================================================= constituents

/-- A constituent with its derivations as text. -/
structure ConstituentSummary where
  lhs : String
  start : Nat
  stop : Nat
  /-- One line for every derivation. -/
  rules : List String
  /-- The least cost of a derivation. -/
  cheapest : Cost
  deriving DecidableEq

/-- The least of the costs of derivations; infinite if there are none. -/
def Constituent.cheapest (c : Constituent) : Cost :=
  c.derivations.foldl (fun best d => best.least d.cost) Cost.infinite

/-- The summary of a constituent. -/
def Constituent.summary (v : Vocabulary) (c : Constituent) :
    ConstituentSummary where
  lhs := v.display c.lhs
  start := c.start
  stop := c.stop
  rules := c.derivations.toList.map fun d => d.rule.rule.display v
  cheapest := c.cheapest

-- =============================================================== cells

/-- The counts of a cell of items. -/
structure CellSummary where
  /-- The place of the grammar among all grammars. -/
  grammar : Nat
  start : Nat
  stop : Nat
  items : Nat
  /-- The items at which a rule ends. -/
  complete : Nat
  deriving DecidableEq, Repr

/-- The cells of a chart that hold items. -/
def ItemChart.cellSummaries (grammar : Nat) (c : ItemChart) :
    List CellSummary :=
  ((Triangle.spans c.limit).filter fun (i, _) => i < c.limit).filterMap
    fun (i, j) =>
      match c.itemsAt i j with
      | [] => none
      | items => some {
          grammar
          start := i
          stop := j
          items := items.length
          complete := items.countP (·.position.hasRules) }

-- ============================================================= summary

/-- The summary of a parse. -/
structure Summary where
  goalReached : Bool
  constituents : List ConstituentSummary
  /-- All items in all charts. -/
  items : Nat
  seeded : Nat
  passes : List PassCounts
  cells : List CellSummary

/-- The summary of a finished parse. -/
def ParseResult.summary (v : Vocabulary) (r : ParseResult) : Summary where
  goalReached := r.goal.isSome
  constituents := r.parse.forest.constituents.toList.map (·.summary v)
  items := ChartedGrammar.totalItems r.parse.charts
  seeded := r.seeded
  passes := r.passes
  cells := r.parse.charts.zipIdx.flatMap fun (c, grammar) =>
    c.chart.cellSummaries grammar

/-- Parses a lattice with grammars that share a vocabulary. The label of the
goal is interned first. -/
def Grammar.summarize (v : Vocabulary) (grammars : List Grammar)
    (l : Lattice) (goal : String) : Except ChartError Summary := do
  let (v, goal) := v.intern goal
  let r ← l.parse (grammars.map fun g => g.view v) goal
  return r.summary v

/-- Parses a sentence with the rules of a text. -/
def Summary.ofTexts (sentence grammar goal : String) :
    Except (RuleError ⊕ ChartError) Summary :=
  match Grammar.ofText 0 {} {} grammar with
  | (_, .error e) => .error (.inl e)
  | (v, .ok g) =>
    let (v, words) := v.internWords (Text.stringWords sentence)
    (Grammar.summarize v [g] (.ofSentence words) goal).mapError .inr

end LatticeParsing
