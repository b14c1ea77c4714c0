/-
The forest of completed constituents.

A constituent is a left-hand side over a span, together with every way of
deriving it. Constituents are numbered in the order in which they are
found, each knows its number, and derivations refer to the constituents
that they are built from by number. Each span has a cell that lists its
constituents by ascending left-hand side.

A derivation is told from others by its rule, as listed in a grammar, and
by the constituents it is built from. When it is recorded again, only the
lesser cost is kept: it is the cost of the cheapest path through the
lattice on which the rule was found. A `Ledger` looks the derivation up in an
index instead of searching for it.
-/
import LatticeParsing.Chart.Triangle
import LatticeParsing.Cost.Basic
import LatticeParsing.Rule.Basic

namespace LatticeParsing

-- ========================================================= derivations

/-- A rule applied over constituents. -/
structure Derivation where
  rule : ListedRule
  antecedents : List Nat
  cost : Cost
  deriving DecidableEq

/-- Whether two derivations differ in cost at most. -/
def Derivation.sameAs (d e : Derivation) : Bool :=
  d.rule.id == e.rule.id && d.antecedents == e.antecedents

/-- A left-hand side over a span and its derivations in the order in which
they were first recorded. -/
structure Constituent where
  /-- The number of the constituent. -/
  id : Nat
  lhs : Symbol
  start : Nat
  stop : Nat
  derivations : Array Derivation := #[]
  deriving DecidableEq

/-- Records a derivation. The flag tells whether it is new. -/
def Constituent.record (c : Constituent) (d : Derivation) :
    Constituent × Bool :=
  match c.derivations.findIdx? (·.sameAs d) with
  | some k =>
    let lower := fun (e : Derivation) => { e with cost := e.cost.least d.cost }
    ({ c with derivations := c.derivations.modify k lower }, false)
  | none => ({ c with derivations := c.derivations.push d }, true)

-- =============================================================== cells

/-- The constituents of a span: left-hand sides, ascending, with the numbers
of their constituents. -/
abbrev Cell := List (Symbol × Nat)

namespace Cell

/-- The constituent with a left-hand side. -/
def find? (c : Cell) (lhs : Symbol) : Option Nat := c.lookup lhs

/-- Lists a constituent whose left-hand side the cell does not have. -/
def insert (lhs : Symbol) (id : Nat) : Cell → Cell
  | [] => [(lhs, id)]
  | (s, k) :: rest =>
    if lhs < s then (lhs, id) :: (s, k) :: rest
    else (s, k) :: insert lhs id rest

end Cell

-- ============================================================== forest

/-- The constituents and the cells that list them. -/
structure Forest where
  cells : Triangle Cell
  constituents : Array Constituent
  derivationCount : Nat

namespace Forest

/-- The forest without constituents, for spans up to `nodes`. -/
def empty (nodes : Nat) : Forest := ⟨.replicate nodes [], #[], 0⟩

/-- The cell of a span; an empty one outside the table. -/
def cellAt (f : Forest) (i j : Nat) : Cell := (f.cells.get? i j).getD []

/-- The constituent with a left-hand side over a span. -/
def find? (f : Forest) (i j : Nat) (lhs : Symbol) : Option Nat :=
  (f.cellAt i j).find? lhs

/-- The constituent with a left-hand side over a span, which is made if it
is missing. The flag tells whether it was. There are none outside the
table. -/
def ensure? (f : Forest) (i j : Nat) (lhs : Symbol) :
    Option (Forest × Nat × Bool) :=
  match f.cells.get? i j with
  | none => none
  | some cell =>
    match cell.find? lhs with
    | some id => some (f, id, false)
    | none =>
      let id := f.constituents.size
      some ({ f with
        cells := f.cells.set i j (cell.insert lhs id)
        constituents := f.constituents.push ⟨id, lhs, i, j, #[]⟩ }, id, true)

/-- Records a derivation of a constituent. The flag tells whether it is a
new derivation of a constituent that there is. -/
def record (f : Forest) (id : Nat) (d : Derivation) : Forest × Bool :=
  match f.constituents[id]? with
  | none => (f, false)
  | some c =>
    let (c, isNew) := c.record d
    ({ f with
      constituents := f.constituents.setIfInBounds id c
      derivationCount := f.derivationCount + if isNew then 1 else 0 }, isNew)

end Forest

end LatticeParsing
