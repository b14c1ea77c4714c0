/-
Lattices whose distances are stored in a table.

The machine keeps the distances between `n` nodes in one table with `n * n`
entries, row by row, and fills a row by a sweep over the nodes. It would stop
if an arc led out of the table, or if there were more entries or longer paths
than its numbers can count.

The invariant of the sweep: the table holds, row by row, what is known of the
distances (`Holds`), and what is known of a node is at most its number, since
every arc leads forward (`Short`). So the machine stores what
`Lattice.distance` says (`Stores`), and finds it again (`distance?_eq`).
-/
import LatticeParsing.Proofs.Lattice.Distances
import LatticeParsing.Proofs.Machine.Texts
import Mathlib.Tactic.Linarith

namespace LatticeParsing.Machine

open LatticeParsing.Lattice LatticeText

-- ================================================================= tables

/-- A lattice with the table of its distances. -/
structure StoredLattice where
  nodes : Array (List Arc)
  distances : Array (Option Nat)

/-- Where the distance from `i` to `j` stands among those of `n` nodes. -/
def slot? (top n i j : Nat) : Option Nat := do add? top (← mul? top i n) j

/-- Notes a path of `k + 1` arcs from node `i` over an arc. -/
def noteArc? (top n i k : Nat) (d : Array (Option Nat)) (a : Arc) :
    Option (Array (Option Nat)) := do
  let slot ← slot? top n i a.head
  let next ← add? top k 1
  change? d slot fun best =>
    match best with
    | none => some next
    | some b => some (min b next)

/-- Extends the best path from node `i` to a node over all arcs that leave
it. -/
def settle? (top : Nat) (nodes : Array (List Arc)) (i : Nat)
    (d : Array (Option Nat)) (node : Nat) : Option (Array (Option Nat)) := do
  let slot ← slot? top nodes.size i node
  match ← d[slot]? with
  | none => return d
  | some k =>
    let arcs ← nodes[node]?
    arcs.foldlM (noteArc? top nodes.size i k) d

/-- Fills the row of a node. -/
def sweep? (top : Nat) (nodes : Array (List Arc)) (d : Array (Option Nat))
    (i : Nat) : Option (Array (Option Nat)) := do
  let slot ← slot? top nodes.size i i
  let d ← change? d slot fun _ => some 0
  let count ← sub? nodes.size i
  (List.range' i count).foldlM (settle? top nodes i) d

/-- Stores a lattice with the given arcs at its nodes. -/
def store? (top : Nat) (nodes : Array (List Arc)) : Option StoredLattice := do
  let count ← mul? top nodes.size nodes.size
  let d ← (List.range nodes.size).foldlM (sweep? top nodes)
    (Array.replicate count none)
  return ⟨nodes, d⟩

/-- The distance that is stored of two nodes. -/
def StoredLattice.distance? (s : StoredLattice) (top i j : Nat) :
    Option (Option Nat) :=
  if s.nodes.size ≤ i ∨ s.nodes.size ≤ j then some none
  else do
    let slot ← slot? top s.nodes.size i j
    s.distances[slot]?

/-- Whether a lattice is stored as it is. -/
structure Stores (s : StoredLattice) (l : Lattice) : Prop where
  nodes : s.nodes = l.outgoing
  distances : ∀ i j, i < l.nodeCount → j < l.nodeCount →
    s.distances[i * l.nodeCount + j]? = some (l.distance i j)

-- ================================================================== slots

variable {top n i j k : Nat}

/-- A slot lies in the table. -/
theorem slot_lt (hi : i < n) (hj : j < n) : i * n + j < n * n :=
  calc i * n + j < i * n + n := by omega
    _ = (i + 1) * n := by rw [Nat.succ_mul]
    _ ≤ n * n := Nat.mul_le_mul_right n hi

/-- No two pairs of nodes share a slot. -/
theorem slot_inj {i' j' : Nat} (hj : j < n) (hj' : j' < n)
    (h : i * n + j = i' * n + j') : i = i' ∧ j = j' := by
  have hn : 0 < n := by omega
  have hrow : ∀ a b, b < n → (a * n + b) / n = a := fun a b hb => by
    rw [Nat.mul_comm, Nat.mul_add_div hn, Nat.div_eq_of_lt hb, Nat.add_zero]
  have hi : i = i' := by rw [← hrow i j hj, h, hrow i' j' hj']
  subst hi
  exact ⟨rfl, Nat.add_left_cancel h⟩

theorem slot?_eq (hn : n * n ≤ top) (hi : i < n) (hj : j < n) :
    slot? top n i j = some (i * n + j) := by
  have hlt := slot_lt hi hj
  unfold slot?
  rw [mul?_eq (by omega)]
  exact add?_eq (by omega)

-- ================================================================== sweep

/-- A table whose row `i` holds what is known of the distances from node `i`,
and whose other rows are those of the table `before`. -/
structure Holds (n i : Nat) (before : Array (Option Nat)) (known : Known)
    (d : Array (Option Nat)) : Prop where
  size_eq : d.size = n * n
  row : ∀ j, j < n → d[i * n + j]? = known[j]?
  others : ∀ i' j, i' ≠ i → j < n → d[i' * n + j]? = before[i' * n + j]?

/-- What is known of a node is at most its number. -/
def Short (known : Known) : Prop := ∀ j k, known.best? j = some k → k ≤ j

variable {l : Lattice} {known : Known} {before d : Array (Option Nat)}

theorem Holds.change (h : Holds n i before known d) (hi : i < n) (hj : j < n)
    (f : Option Nat → Option Nat) :
    Returns (change? d (i * n + j) f)
      (Holds n i before (known.modify j f)) := by
  have hlt := slot_lt hi hj
  refine ⟨_, change?_eq (by rwa [h.size_eq]) f, ?_, fun k hk => ?_,
    fun i' k hi' hk => ?_⟩
  · rw [Array.size_modify, h.size_eq]
  · rw [Array.getElem?_modify, Array.getElem?_modify, h.row k hk]
    by_cases hjk : j = k
    · rw [if_pos (by rw [hjk]), if_pos hjk]
    · rw [if_neg fun heq => hjk (slot_inj hj hk heq).2, if_neg hjk]
  · rw [Array.getElem?_modify, if_neg fun heq =>
      hi' (slot_inj hj hk heq).1.symm]
    exact h.others i' k hi' hk

/-- What is known of the nodes stays short when a path over an arc of a node is
noted. -/
theorem Short.note {node : Nat} {a : Arc} (h : Short known)
    (ha : a ∈ l.arcsFrom node) (hk : k ≤ node) :
    Short (known.note a.head (k + 1)) := by
  obtain ⟨-, hforward, -⟩ := l.fits_arcsFrom ha
  intro j b hb
  rcases Known.eq_of_best?_note hb with hb | ⟨rfl, rfl⟩
  · exact h j b hb
  · omega

/-- A path over an arc of a node is noted where it belongs. -/
theorem noteArc?_returns {node : Nat} {a : Arc}
    (htop : l.nodeCount * l.nodeCount ≤ top) (hi : i < l.nodeCount)
    (ha : a ∈ l.arcsFrom node) (hk : k ≤ node)
    (h : Holds l.nodeCount i before known d) (hshort : Short known) :
    Returns (noteArc? top l.nodeCount i k d a) fun d' =>
      Holds l.nodeCount i before (known.note a.head (k + 1)) d'
        ∧ Short (known.note a.head (k + 1)) := by
  obtain ⟨-, hforward, hhead⟩ := l.fits_arcsFrom ha
  have hcount : l.nodeCount ≤ l.nodeCount * l.nodeCount := Nat.le_mul_self _
  unfold noteArc?
  rw [slot?_eq htop hi hhead, add?_eq (show k + 1 ≤ top by omega)]
  exact (h.change hi hhead _).imp fun d' hd' => ⟨hd', hshort.note ha hk⟩

/-- At a node of the sweep, what is known is extended over its arcs. -/
theorem settle?_returns (htop : l.nodeCount * l.nodeCount ≤ top)
    (hi : i < l.nodeCount) (hj : j < l.nodeCount)
    (h : Holds l.nodeCount i before known d) (hshort : Short known) :
    Returns (settle? top l.outgoing i d j) fun d' =>
      Holds l.nodeCount i before (l.settle known j) d'
        ∧ Short (l.settle known j) := by
  have hslot : i * l.nodeCount + j < d.size := by
    rw [h.size_eq]
    exact slot_lt hi hj
  have harcs : l.outgoing[j]? = some (l.arcsFrom j) := by
    unfold arcsFrom
    rw [Array.getElem?_eq_getElem (show j < l.outgoing.size from hj)]
    rfl
  have hrow := h.row j hj
  rw [Array.getElem?_eq_getElem hslot] at hrow
  unfold settle?
  rw [show l.outgoing.size = l.nodeCount from rfl, slot?_eq htop hi hj,
    settle_eq]
  simp only [Option.bind_eq_bind, Option.bind_some,
    Array.getElem?_eq_getElem hslot, harcs, Known.best?, ← hrow,
    Option.join_some]
  cases hbest : d[i * l.nodeCount + j] with
  | none => exact ⟨d, rfl, h, hshort⟩
  | some k =>
      have hk : k ≤ j := hshort j k (by
        unfold Known.best?
        rw [← hrow, hbest]
        rfl)
      have hnote : ∀ d known, ∀ a ∈ l.arcsFrom j,
          Holds l.nodeCount i before known d ∧ Short known →
          Returns (noteArc? top l.nodeCount i k d a) fun d' =>
            Holds l.nodeCount i before (known.note a.head (k + 1)) d'
              ∧ Short (known.note a.head (k + 1)) :=
        fun d known a ha hd => noteArc?_returns htop hi ha hk hd.1 hd.2
      exact returns_foldlM hnote ⟨h, hshort⟩

-- ================================================================== rows

/-- A table that holds the distances from the nodes before `m`, and nothing
else. -/
structure Filled (l : Lattice) (m : Nat) (d : Array (Option Nat)) : Prop where
  size_eq : d.size = l.nodeCount * l.nodeCount
  done : ∀ i j, i < m → j < l.nodeCount →
    d[i * l.nodeCount + j]? = some (l.distance i j)
  blank : ∀ i j, m ≤ i → i < l.nodeCount → j < l.nodeCount →
    d[i * l.nodeCount + j]? = some none

/-- The distance that is found from a node. -/
theorem getElem?_distancesFrom (hi : i < l.nodeCount) (hj : j < l.nodeCount) :
    (l.distancesFrom i)[j]? = some (l.distance i j) := by
  have hsize : j < (l.distancesFrom i).size := by
    rw [(swept_distancesFrom hi).size_eq]
    exact hj
  unfold distance
  rw [if_pos hi, Array.getElem?_eq_getElem hsize]
  rfl

/-- The sweep from a node fills its row. -/
theorem sweep?_returns (htop : l.nodeCount * l.nodeCount ≤ top)
    (hi : i < l.nodeCount) (h : Filled l i d) :
    Returns (sweep? top l.outgoing d i) (Filled l (i + 1)) := by
  have hblank : Holds l.nodeCount i d (Array.replicate l.nodeCount none) d := by
    refine ⟨h.size_eq, fun j hj => ?_, fun _ _ _ _ => rfl⟩
    rw [h.blank i j (Nat.le_refl i) hi hj, Array.getElem?_replicate, if_pos hj]
  have hshort : Short ((Array.replicate l.nodeCount none).modify i
      fun _ => some 0) := by
    intro j k hk
    obtain ⟨as, has, rfl⟩ := (swept_start hi).attained j k hk
    have hforward := has.forward.1
    omega
  unfold sweep?
  rw [show l.outgoing.size = l.nodeCount from rfl, slot?_eq htop hi hi]
  refine (hblank.change hi hi _).bind fun d₀ hd₀ => ?_
  rw [sub?_eq (Nat.le_of_lt hi)]
  have hsettle : ∀ d' known, ∀ j ∈ List.range' i (l.nodeCount - i),
      Holds l.nodeCount i d known d' ∧ Short known →
      Returns (settle? top l.outgoing i d' j) fun d' =>
        Holds l.nodeCount i d (l.settle known j) d'
          ∧ Short (l.settle known j) := by
    intro d' known j hj hd'
    have hj := List.mem_range'_1.1 hj
    exact settle?_returns htop hi (by omega) hd'.1 hd'.2
  refine (returns_foldlM hsettle ⟨hd₀, hshort⟩).imp fun d' hd' => ?_
  obtain ⟨hholds, -⟩ := hd'
  refine ⟨hholds.size_eq, fun i' j hi' hj => ?_, fun i' j hi' hlt hj => ?_⟩
  · rcases Nat.lt_succ_iff_lt_or_eq.1 hi' with hbefore | rfl
    · rw [hholds.others i' j (by omega) hj]
      exact h.done i' j hbefore hj
    · rw [hholds.row j hj]
      exact getElem?_distancesFrom hi hj
  · rw [hholds.others i' j (by omega) hj]
    exact h.blank i' j (by omega) hlt hj

/-- The machine stores a lattice if its numbers can count the pairs of
nodes. -/
theorem store?_returns (htop : l.nodeCount * l.nodeCount ≤ top) :
    Returns (store? top l.outgoing) (Stores · l) := by
  have hblank : Filled l 0
      (Array.replicate (l.nodeCount * l.nodeCount) none) := by
    refine ⟨Array.size_replicate, fun i j hi => by omega,
      fun i j _ hi hj => ?_⟩
    rw [Array.getElem?_replicate, if_pos (slot_lt hi hj)]
  have hrows := returns_range (f := sweep? top l.outgoing)
    (fun d i hi hd => sweep?_returns htop hi hd) hblank
  unfold store?
  rw [show l.outgoing.size = l.nodeCount from rfl, mul?_eq htop]
  refine hrows.bind fun d hd => ⟨⟨l.outgoing, d⟩, rfl, rfl, ?_⟩
  exact fun i j hi hj => hd.done i j hi hj

-- ============================================================= distances

/-- A stored distance is found. -/
theorem distance?_eq {s : StoredLattice} {l : Lattice} (h : Stores s l)
    (htop : l.nodeCount * l.nodeCount ≤ top) (i j : Nat) :
    s.distance? top i j = some (l.distance i j) := by
  have hsize : s.nodes.size = l.nodeCount := by rw [h.nodes]; rfl
  unfold StoredLattice.distance?
  rw [hsize]
  by_cases hi : i < l.nodeCount
  · by_cases hj : j < l.nodeCount
    · rw [if_neg (by omega), slot?_eq htop hi hj]
      exact h.distances i j hi hj
    · rw [if_pos (Or.inr (Nat.not_lt.1 hj))]
      unfold distance
      rw [if_pos hi, Array.getElem?_eq_none]
      · rfl
      · rw [(swept_distancesFrom hi).size_eq]
        omega
  · rw [if_pos (Or.inl (Nat.not_lt.1 hi))]
    unfold distance
    rw [if_neg hi]


end LatticeParsing.Machine
