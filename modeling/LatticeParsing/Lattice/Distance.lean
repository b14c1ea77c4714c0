/-
Distances in a lattice.

The distance between two nodes is the number of arcs on a shortest path. As
arcs lead to later nodes only, one sweep over the nodes in ascending order
settles the distances from a node: when the sweep comes to a node, no
shorter path to it can turn up.
-/
import LatticeParsing.Lattice.Basic

namespace LatticeParsing.Lattice

/-- The best distances known so far, node by node. -/
abbrev Known := Array (Option Nat)

/-- Notes a path of `k` arcs to a node. -/
def Known.note (d : Known) (node k : Nat) : Known :=
  d.modify node fun best =>
    match best with
    | none => some k
    | some b => some (min b k)

/-- Extends the best path to a node over all arcs that leave it. -/
def settle (l : Lattice) (d : Known) (node : Nat) : Known :=
  match d[node]?.join with
  | none => d
  | some k => (l.arcsFrom node).foldl (fun d a => d.note a.head (k + 1)) d

/-- The distances from a node to all nodes. -/
def distancesFrom (l : Lattice) (start : Nat) : Known :=
  let atStart := (Array.replicate l.nodeCount none).modify start
    fun _ => some 0
  (List.range' start (l.nodeCount - start)).foldl l.settle atStart

/-- The distance from `i` to `j`, if a path leads there. -/
def distance (l : Lattice) (i j : Nat) : Option Nat :=
  if i < l.nodeCount then (l.distancesFrom i)[j]?.join else none

end LatticeParsing.Lattice
