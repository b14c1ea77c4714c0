/-
Word lattices.

A lattice has nodes numbered from zero and arcs between them, each with a
label and a cost. Every arc leads from its tail to a later node, its head,
so the order of the numbers is a topological order and an arc covers
`head - tail` positions. A sentence is the lattice with a single path.
-/
import LatticeParsing.Cost.Basic
import LatticeParsing.Symbol.Vocabulary

namespace LatticeParsing

-- ============================================================== errors

/-- What is wrong with the text of a lattice. -/
inductive LatticeTextFault where
  /-- A closing parenthesis without an opening one. -/
  | unbalanced
  /-- A character outside all parentheses. -/
  | unexpected (c : Char)
  | unterminated
  | outerTuples (count : Nat)
  | arcForm (text : String)
  | arcCost (text : String)
  | arcOffset (text : String)
  | offsetRange
  deriving DecidableEq, Repr

/-- Why a lattice is refused. -/
inductive LatticeError where
  | backwardArc (tail head : Nat)
  | arcOutOfRange (tail head nodes : Nat)
  | empty
  /-- The text of the lattice is malformed; `offset` counts bytes. -/
  | malformed (offset : Nat) (fault : LatticeTextFault)
  deriving DecidableEq, Repr

/-- The wording of a fault. -/
def LatticeTextFault.message : LatticeTextFault → String
  | unbalanced => "unbalanced `)`"
  | unexpected c => "unexpected `" ++ String.singleton c ++ "`"
  | unterminated => "unterminated tuple"
  | outerTuples count => "expected one outer tuple, found " ++ toString count
  | arcForm text =>
    "expected ('label', cost, offset), found (" ++ text ++ ")"
  | arcCost text => "invalid arc cost `" ++ text ++ "`"
  | arcOffset text => "invalid arc offset `" ++ text ++ "`"
  | offsetRange => "arc offset out of range"

/-- The wording of a refusal. -/
def LatticeError.message : LatticeError → String
  | backwardArc tail head =>
    "arc " ++ toString tail ++ "->" ++ toString head ++ " must move forward"
  | arcOutOfRange tail head nodes =>
    "arc " ++ toString tail ++ "->" ++ toString head
      ++ " leaves a lattice of " ++ toString nodes ++ " node(s)"
  | empty => "lattice has no nodes"
  | malformed offset fault =>
    "malformed PLF near byte " ++ toString offset ++ ": " ++ fault.message

-- ================================================================ arcs

/-- A labelled arc with a cost. -/
structure Arc where
  tail : Nat
  head : Nat
  cost : Cost
  label : Symbol
  deriving DecidableEq

/-- How many positions an arc covers. -/
def Arc.spanLength (a : Arc) : Nat := a.head - a.tail

/-- What keeps an arc out of a lattice with `nodes` nodes. -/
def Arc.error? (nodes : Nat) (a : Arc) : Option LatticeError :=
  if a.head ≤ a.tail then some (.backwardArc a.tail a.head)
  else if nodes ≤ a.head then some (.arcOutOfRange a.tail a.head nodes)
  else none

/-- An arc that may leave node `t` of a lattice with `nodes` nodes. -/
def Arc.FitsAt (nodes t : Nat) (a : Arc) : Prop :=
  a.tail = t ∧ t < a.head ∧ a.head < nodes

-- ============================================================ lattices

/-- A lattice: for every node the arcs that leave it, in a fixed order.
There is at least one node, and every arc stands with its tail and leads
forward within the lattice. -/
structure Lattice where
  outgoing : Array (List Arc)
  nonempty : 0 < outgoing.size
  fits : ∀ t (h : t < outgoing.size), ∀ a ∈ outgoing[t],
    a.FitsAt outgoing.size t

namespace Lattice

/-- The number of nodes. -/
def nodeCount (l : Lattice) : Nat := l.outgoing.size

/-- The number of positions that a full path covers. -/
def sourceLength (l : Lattice) : Nat := l.nodeCount - 1

/-- The arcs that leave a node; none outside the lattice. -/
def arcsFrom (l : Lattice) (t : Nat) : List Arc := l.outgoing[t]?.getD []

theorem nodeCount_eq (l : Lattice) : l.nodeCount = l.sourceLength + 1 :=
  (Nat.sub_add_cancel l.nonempty).symm

/-- Arcs leave their tail and lead forward within the lattice. -/
theorem fits_arcsFrom {l : Lattice} {t : Nat} {a : Arc}
    (h : a ∈ l.arcsFrom t) : a.FitsAt l.nodeCount t := by
  unfold arcsFrom at h
  cases ht : l.outgoing[t]? with
  | none =>
      rw [ht] at h
      cases h
  | some arcs =>
      rw [ht] at h
      obtain ⟨hlt, rfl⟩ := Array.getElem?_eq_some_iff.1 ht
      exact l.fits t hlt a h

/-- An arc leads as far as it covers positions. -/
theorem add_spanLength {l : Lattice} {t : Nat} {a : Arc}
    (h : a ∈ l.arcsFrom t) : t + a.spanLength = a.head := by
  obtain ⟨htail, hforward, -⟩ := l.fits_arcsFrom h
  unfold Arc.spanLength
  omega

/-- The lattice with a single path, whose arcs cost nothing. -/
def ofSentence (words : List Symbol) : Lattice where
  outgoing := Array.ofFn (n := words.length + 1) fun t =>
    match words[t.val]? with
    | some w => [⟨t, t + 1, Cost.zero, w⟩]
    | none => []
  nonempty := by simp
  fits := by
    intro t h a ha
    simp only [Array.getElem_ofFn] at ha
    split at ha
    · rename_i w hw
      have hlt := (List.getElem?_eq_some_iff.1 hw).1
      have ha := List.mem_singleton.1 ha
      subst ha
      simp [Arc.FitsAt]
      omega
    · exact absurd ha (List.not_mem_nil)

/-- The arcs of a list that leave a node. -/
def arcsWithTail (arcs : List Arc) (t : Nat) : List Arc :=
  arcs.filter fun a => a.tail == t

/-- The lattice with the given arcs, each node keeping the order of the
list. Fails at the first arc that does not lead forward within the
lattice. -/
def ofArcs (nodes : Nat) (arcs : List Arc) : Except LatticeError Lattice :=
  if hn : nodes = 0 then .error .empty
  else
    match h : arcs.findSome? (Arc.error? nodes) with
    | some e => .error e
    | none => .ok {
        outgoing := Array.ofFn (n := nodes) fun t => arcsWithTail arcs t
        nonempty := by simp; omega
        fits := by
          intro t ht a ha
          simp only [Array.getElem_ofFn, arcsWithTail, List.mem_filter,
            beq_iff_eq] at ha
          have hgood := List.findSome?_eq_none_iff.1 h a ha.1
          simp only [Arc.error?] at hgood
          simp only [Array.size_ofFn, Arc.FitsAt]
          split at hgood
          · cases hgood
          · split at hgood
            · cases hgood
            · omega }

/-- True of a lattice with a single path: every node has at most one arc,
which covers one position. -/
def isLinear (l : Lattice) : Bool :=
  l.outgoing.all fun arcs =>
    match arcs with
    | [] => true
    | [a] => a.spanLength == 1
    | _ => false

end Lattice

end LatticeParsing
