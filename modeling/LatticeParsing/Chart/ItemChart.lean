/-
The chart of items of one grammar.

Every span has a cell of items. An item of the root stands at the start of
every node over which the grammar allows an empty span; all others arise by
matching one more symbol. `expand` does so for the items that end before
`j`, over constituents and over arcs. `start` does so for the items of the
root over the constituents of a whole span, and leaves out those at which
nothing can follow, since rules with a single nonterminal are applied
elsewhere.

Expanding a span reads the cells of spans with the same start and an
earlier end and the constituents behind their ends. It writes to cells with
the same start: that of the span, and those of later ends, where longer
arcs lead. The chart does not order its calls; its caller expands a span
when all that is read for it is complete. How many items the two calls add
is told by `expandCount` and `startCount`.
-/
import LatticeParsing.Chart.Forest
import LatticeParsing.Chart.Item
import LatticeParsing.Grammar.Basic
import LatticeParsing.Lattice.Distance

namespace LatticeParsing

/-- Why a chart cannot be set up: the grammar allows rules over an empty
span, but has no position at which they start. -/
inductive ChartError where
  | missingRoot (node : Nat)
  deriving DecidableEq, Repr

/-- The wording of the error. -/
def ChartError.message : ChartError → String
  | missingRoot node =>
    "malformed grammar: no trie root while seeding position " ++ toString node

/-- The items over each span, in the order in which they were added, and
their number. -/
structure ItemChart where
  cells : Triangle (Array Item)
  itemCount : Nat

namespace ItemChart

-- =============================================================== cells

/-- The chart without items, for spans up to `nodes`. -/
def empty (nodes : Nat) : ItemChart := ⟨.replicate nodes #[], 0⟩

/-- The greatest end of a span. -/
def limit (c : ItemChart) : Nat := c.cells.max

/-- The items over a span; none outside the table. -/
def itemsAt (c : ItemChart) (i j : Nat) : List Item :=
  ((c.cells.get? i j).getD #[]).toList

/-- Adds an item to the cell of its span. Outside the table it is
dropped. -/
def add (c : ItemChart) (x : Item) : ItemChart :=
  if c.cells.hasSpan x.start x.stop then
    ⟨c.cells.modify x.start x.stop (·.push x), c.itemCount + 1⟩
  else c

/-- Adds items in order. -/
def addAll (c : ItemChart) (xs : List Item) : ItemChart := xs.foldl add c

/-- How many of several items are added and not dropped. -/
def keptCount (c : ItemChart) (xs : List Item) : Nat :=
  xs.countP fun x => c.cells.hasSpan x.start x.stop

-- ============================================================= seeding

/-- The items at the root, for the nodes of a list. -/
def seeds (l : Lattice) (g : GrammarView) :
    List Nat → Except ChartError (List Item)
  | [] => .ok []
  | j :: js =>
    match l.distance j j with
    | none => seeds l g js
    | some d =>
      if g.allows j j d then
        match g.root? with
        | none => .error (.missingRoot j)
        | some root => do
          let rest ← seeds l g js
          return { start := j, stop := j, position := root } :: rest
      else seeds l g js

/-- The chart with an item of the root at every node that the grammar
allows. -/
def seeded (l : Lattice) (g : GrammarView) : Except ChartError ItemChart :=
  (seeds l g (List.range l.nodeCount)).map (empty l.nodeCount).addAll

-- =========================================================== extension

variable (g : GrammarView)

/-- The items that arise from those over `i` to `k` by crossing a
constituent over `k` to `j`. With `extensible`, items at which nothing can
follow are left out. -/
def overConstituents (f : Forest) (extensible : Bool) (i k j : Nat)
    (c : ItemChart) : List Item :=
  (c.itemsAt i k).flatMap fun x =>
    let crossable := x.position.nonterminals
    (f.cellAt k j).filterMap fun (lhs, id) =>
      if Symbol.containsSorted crossable lhs then
        (g.follow? x.position lhs).bind fun p =>
          if extensible && !p.hasExtensions then none
          else some (x.crossConstituent id p j)
      else none

/-- The items that arise from those over `i` to `k` by crossing an arc that
leaves node `k`. Arcs labelled by nonterminals are not crossed. -/
def overArcs (l : Lattice) (i k : Nat) (c : ItemChart) : List Item :=
  ((l.arcsFrom k).filter (!·.label.isNonterminal)).flatMap fun a =>
    (c.itemsAt i k).filterMap fun x =>
      (g.follow? x.position a.label).map fun p =>
        x.crossArc a p (k + a.spanLength)

/-- Adds the items that arise at each split point of a list, one after the
other. -/
def crossSplits (f : Forest) (i j : Nat) (c : ItemChart)
    (splits : List Nat) : ItemChart :=
  splits.foldl (fun c k => c.addAll (overConstituents g f false i k j c)) c

/-- Matches one more symbol up to `j` or beyond: constituents that end at
`j`, by ascending start, and then arcs that leave the node before `j`. Empty
spans and spans outside the table are passed over. -/
def expand (l : Lattice) (f : Forest) (i j : Nat) (c : ItemChart) : ItemChart :=
  if j ≤ i || c.limit < j then c
  else
    let c := crossSplits g f i j c (List.range' (i + 1) (j - (i + 1)))
    c.addAll (overArcs g l i (j - 1) c)

/-- Matches the first symbol of rules by the constituents over `i` to
`j`. -/
def start (f : Forest) (i j : Nat) (c : ItemChart) : ItemChart :=
  c.addAll (overConstituents g f true i i j c)

-- ============================================================== counts

/-- How many items `crossSplits` adds. -/
def splitCount (f : Forest) (i j : Nat) (c : ItemChart) : List Nat → Nat
  | [] => 0
  | k :: splits =>
    let items := overConstituents g f false i k j c
    c.keptCount items + splitCount f i j (c.addAll items) splits

/-- How many items `expand` adds. -/
def expandCount (l : Lattice) (f : Forest) (i j : Nat) (c : ItemChart) : Nat :=
  if j ≤ i || c.limit < j then 0
  else
    let splits := List.range' (i + 1) (j - (i + 1))
    let crossed := crossSplits g f i j c splits
    splitCount g f i j c splits
      + crossed.keptCount (overArcs g l i (j - 1) crossed)

/-- How many items `start` adds. -/
def startCount (f : Forest) (i j : Nat) (c : ItemChart) : Nat :=
  c.keptCount (overConstituents g f true i i j c)

end ItemChart

end LatticeParsing
