/-
Parsing: filling the charts and the forest.

Spans are taken by ascending width, and by ascending start within a width.
For each span

* every item chart is expanded over it,
* the items over it at which rules end are completed into derivations,
* rules with a single nonterminal are applied to the new constituents of
  the span until no constituent is new, and
* every item chart starts rules from the constituents of the span.

When a span is taken, everything shorter within it is complete. Rules are
completed over a span only where their grammar allows it.
-/
import LatticeParsing.Chart.ItemChart

namespace LatticeParsing

-- ============================================================== counts

/-- What happened at the spans of one width. -/
structure PassCounts where
  width : Nat
  items : Nat := 0
  constituents : Nat := 0
  derivations : Nat := 0
  /-- Constituents that rules with a single nonterminal made. -/
  unaryConstituents : Nat := 0
  deriving DecidableEq, Repr

/-- What happened in a whole run. -/
structure RunCounts where
  /-- The items that seeding put into the charts. -/
  seeded : Nat
  /-- The items that arose later. -/
  items : Nat := 0
  constituents : Nat := 0
  derivations : Nat := 0
  /-- One for every width, ascending. -/
  passes : List PassCounts := []
  deriving DecidableEq, Repr

/-- Adds the counts of one more width. -/
def RunCounts.absorb (r : RunCounts) (n : PassCounts) : RunCounts :=
  { r with
    items := r.items + n.items
    constituents := r.constituents + n.constituents
    derivations := r.derivations + n.derivations
    passes := r.passes ++ [n] }

-- =============================================================== state

/-- A grammar and its item chart. -/
structure ChartedGrammar where
  grammar : GrammarView
  chart : ItemChart

/-- The number of items in several charts. -/
def ChartedGrammar.totalItems (cs : List ChartedGrammar) : Nat :=
  (cs.map fun c => c.chart.itemCount).foldr (· + ·) 0

/-- The charts of all grammars and the forest that they share. -/
structure Parse where
  charts : List ChartedGrammar
  forest : Forest

namespace Parse

-- ========================================================== completion

/-- A rule that has been matched over a span, not yet recorded. -/
abbrev Completion := Derivation

/-- The grammars that allow rules over a span. -/
def allowing (l : Lattice) (charts : List ChartedGrammar) (i j : Nat) :
    List ChartedGrammar :=
  match l.distance i j with
  | none => []
  | some d => charts.filter fun c => c.grammar.allows i j d

/-- The rules that end at the items over a span, in the order of the
items. -/
def completions (l : Lattice) (charts : List ChartedGrammar) (i j : Nat) :
    List Completion :=
  (allowing l charts i j).flatMap fun c =>
    (c.chart.itemsAt i j).flatMap fun x =>
      x.position.rules.map fun r => ⟨r, x.antecedents, x.path.cost⟩

/-- The rules whose source side is just a constituent over a span. Applying
them costs nothing. -/
def unaryCompletions (l : Lattice) (charts : List ChartedGrammar)
    (i j : Nat) (lhs : Symbol) (id : Nat) : List Completion :=
  (allowing l charts i j).flatMap fun c =>
    match c.grammar.root?.bind fun root => c.grammar.follow? root lhs with
    | none => []
    | some p =>
      (p.rules.filter (·.rule.isUnary)).map fun r => ⟨r, [id], .zero⟩

-- =========================================================== recording

/-- The forest after completions have been recorded over a span: the
constituents that were made, in order, and how many derivations were
new. -/
structure Recorded where
  forest : Forest
  made : List Nat
  derivations : Nat

/-- Records a completion over a span. -/
def Recorded.add (i j : Nat) (r : Recorded) (d : Completion) : Recorded :=
  match r.forest.ensure? i j d.rule.rule.lhs with
  | none => r
  | some (f, id, isMade) =>
    let (f, isNew) := f.record id d
    ⟨f, if isMade then r.made ++ [id] else r.made,
      r.derivations + if isNew then 1 else 0⟩

/-- Records completions over a span in order. -/
def recordAll (i j : Nat) (f : Forest) (ds : List Completion) : Recorded :=
  ds.foldl (Recorded.add i j) ⟨f, [], 0⟩

/-- Applies rules with a single nonterminal to the constituents of a queue
and to those that arise, in the order in which they were made; `fuel`
bounds the number of constituents. -/
def closeFrom (l : Lattice) (charts : List ChartedGrammar) (i j : Nat) :
    Nat → List Nat → Recorded → Recorded
  | 0, _, r => r
  | _ + 1, [], r => r
  | fuel + 1, id :: queue, r =>
    match r.forest.constituents[id]? with
    | none => closeFrom l charts i j fuel queue r
    | some c =>
      let step := recordAll i j r.forest
        (unaryCompletions l charts i j c.lhs id)
      closeFrom l charts i j fuel (queue ++ step.made)
        ⟨step.forest, r.made ++ step.made, r.derivations + step.derivations⟩

/-- How many constituents of one span can arise from rules: no more than
there are rules, as their left-hand sides differ. -/
def ruleBound (charts : List ChartedGrammar) : Nat :=
  let counts := charts.map fun c =>
    match c.grammar.root? with
    | none => 0
    | some root => (root.places.map fun p => p.node.ruleCount).foldr (· + ·) 0
  counts.foldr (· + ·) 0

/-- Applies rules with a single nonterminal to the constituents `made` over
a span and to those that arise, until none is new. -/
def closeUnary (l : Lattice) (charts : List ChartedGrammar) (i j : Nat)
    (f : Forest) (made : List Nat) : Recorded :=
  closeFrom l charts i j (made.length + ruleBound charts + 1) made ⟨f, [], 0⟩

-- =============================================================== spans

/-- Changes every item chart. -/
def mapCharts (change : GrammarView → ItemChart → ItemChart)
    (charts : List ChartedGrammar) : List ChartedGrammar :=
  charts.map fun c => { c with chart := change c.grammar c.chart }

/-- Adds up what is counted at every item chart. -/
def countCharts (count : GrammarView → ItemChart → Nat)
    (charts : List ChartedGrammar) : Nat :=
  (charts.map fun c => count c.grammar c.chart).foldr (· + ·) 0

/-- Takes a span and adds up what happened. -/
def takeSpan (l : Lattice) (i j : Nat) (p : Parse) (n : PassCounts) :
    Parse × PassCounts :=
  let expanded := mapCharts (fun g c => c.expand g l p.forest i j) p.charts
  let completed := recordAll i j p.forest (completions l expanded i j)
  let closed := closeUnary l expanded i j completed.forest completed.made
  let started := mapCharts (fun g c => c.start g closed.forest i j) expanded
  let expandCounts :=
    countCharts (fun g c => c.expandCount g l p.forest i j) p.charts
  let startCounts :=
    countCharts (fun g c => c.startCount g closed.forest i j) expanded
  (⟨started, closed.forest⟩,
    { n with
      items := n.items + expandCounts + startCounts
      constituents :=
        n.constituents + completed.made.length + closed.made.length
      derivations := n.derivations + completed.derivations + closed.derivations
      unaryConstituents := n.unaryConstituents + closed.made.length })

/-- Takes the spans of one width by ascending start. -/
def takeWidth (l : Lattice) (width : Nat) (p : Parse) : Parse × PassCounts :=
  (List.range (l.sourceLength + 1 - width)).foldl
    (fun (p, n) i => takeSpan l i (i + width) p n) (p, { width := width })

-- ================================================================ runs

/-- The seeded charts of several grammars. -/
def seedAll (l : Lattice) :
    List GrammarView → Except ChartError (List ChartedGrammar)
  | [] => .ok []
  | g :: gs => do
    let chart ← ItemChart.seeded l g
    let rest ← seedAll l gs
    return ⟨g, chart⟩ :: rest

/-- The start of a parse: seeded charts and a forest without
constituents. -/
def begin (l : Lattice) (grammars : List GrammarView) :
    Except ChartError Parse := do
  return ⟨← seedAll l grammars, .empty l.nodeCount⟩

/-- The widths of spans, ascending. -/
def widths (l : Lattice) : List Nat := List.range' 1 l.sourceLength

/-- Takes all spans of the given widths. -/
def takeWidths (l : Lattice) : List Nat → Parse → Parse × List PassCounts
  | [], p => (p, [])
  | w :: ws, p =>
    let (p, n) := takeWidth l w p
    let (p, ns) := takeWidths l ws p
    (p, n :: ns)

/-- The constituent with left-hand side `goal` over the whole input. There
is none over an input without positions. -/
def goal? (l : Lattice) (goal : Symbol) (p : Parse) : Option Nat :=
  if l.sourceLength = 0 then none
  else p.forest.find? 0 l.sourceLength goal

end Parse

/-- A finished parse. -/
structure ParseResult where
  parse : Parse
  goal : Option Nat
  /-- The number of items that seeding put into the charts. -/
  seeded : Nat
  passes : List PassCounts

/-- The counts of the whole parse. -/
def ParseResult.counts (r : ParseResult) : RunCounts :=
  r.passes.foldl RunCounts.absorb { seeded := r.seeded }

/-- The result of taking all spans, from the state at the start and at the
end. -/
def Parse.result (l : Lattice) (goal : Symbol) (start final : Parse)
    (passes : List PassCounts) : ParseResult where
  parse := final
  goal := final.goal? l goal
  seeded := ChartedGrammar.totalItems start.charts
  passes := passes

/-- Parses a lattice with several grammars. The goal does not change what is
found. -/
def Lattice.parse (l : Lattice) (grammars : List GrammarView)
    (goal : Symbol) : Except ChartError ParseResult := do
  let start ← Parse.begin l grammars
  let (final, passes) := Parse.takeWidths l (Parse.widths l) start
  return Parse.result l goal start final passes

end LatticeParsing
