/-
A forest with an index of its derivations.

Whether a constituent has a derivation already, a forest finds out by looking
through its derivations. A ledger looks it up. Its index tells of every
derivation that has been recorded at which place it stands among those of its
constituent. When the derivation is recorded again, the one at that place is
lowered in cost; the ledger stops where none stands there.
-/
import LatticeParsing.Chart.Forest
import Mathlib.Data.List.Basic

namespace LatticeParsing

/-- What tells a derivation from all others: the number of its constituent,
the identity of its rule, and its antecedents. -/
structure DerivationKey where
  constituent : Nat
  rule : RuleId
  antecedents : List Nat
  deriving DecidableEq, Hashable

/-- A forest, and at which place each of its derivations stands. -/
structure Ledger where
  forest : Forest
  seen : Std.HashMap DerivationKey Nat

namespace Ledger

/-- The ledger without constituents, for spans up to `nodes`. -/
def empty (nodes : Nat) : Ledger := ⟨.empty nodes, ∅⟩

/-- The constituent with a left-hand side over a span, which is made if it is
missing. The flag tells whether it was. There are none outside the table. -/
def ensure? (r : Ledger) (i j : Nat) (lhs : Symbol) :
    Option (Ledger × Nat × Bool) :=
  (r.forest.ensure? i j lhs).map fun (f, id, made) => (⟨f, r.seen⟩, id, made)

/-- Records a derivation of a constituent. The flag tells whether it is a new
derivation of a constituent that there is. The ledger stops where the index
tells a place at which no derivation stands. -/
def record? (r : Ledger) (id : Nat) (d : Derivation) :
    Option (Ledger × Bool) :=
  match r.forest.constituents[id]? with
  | none => some (r, false)
  | some c =>
    let key : DerivationKey := ⟨id, d.rule.id, d.antecedents⟩
    let ds := c.derivations
    match r.seen[key]? with
    | some k =>
      if k < ds.size then
        let ds := ds.modify k fun e => { e with cost := e.cost.least d.cost }
        some (⟨{ r.forest with
          constituents := r.forest.constituents.setIfInBounds id
            { c with derivations := ds } }, r.seen⟩, false)
      else none
    | none =>
      some (⟨{ r.forest with
        constituents := r.forest.constituents.setIfInBounds id
          { c with derivations := ds.push d }
        derivationCount := r.forest.derivationCount + 1 },
        r.seen.insert key ds.size⟩, true)

end Ledger

end LatticeParsing
