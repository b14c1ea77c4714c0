/-
Distances are lengths of shortest paths.

The sweep settles the nodes one by one in ascending order. Its invariant
(`Swept`) has two sides: what is known of a node is the length of a path to
it (`attained`), and no path whose arcs leave settled nodes is shorter than
what is known of its end (`bounded`). Settling the next node keeps both,
since the arcs of a path to it leave earlier nodes, all of which have been
settled.

When all nodes have been settled every path is bounded, so a distance is the
least number of arcs on a path (`distance_eq_some`). Arcs that are added make
no distance greater (`Covers.distance_le`).
-/
import LatticeParsing.Lattice.Distance
import Mathlib.Data.List.Basic

namespace LatticeParsing.Lattice

variable {l l' : Lattice} {d : Known} {i j k m n start : Nat} {a : Arc}
  {as : List Arc}

-- =============================================================== paths

/-- Arcs that lead from node `i` to node `j`, one after the other. -/
def Path (l : Lattice) : Nat → List Arc → Nat → Prop
  | i, [], j => i = j
  | i, a :: as, j => a ∈ l.arcsFrom i ∧ Path l a.head as j

namespace Path

/-- A path passes a node behind each of its arcs. -/
theorem append_iff {bs : List Arc} : l.Path i (as ++ bs) j
    ↔ ∃ k, l.Path i as k ∧ l.Path k bs j := by
  induction as generalizing i with
  | nil =>
      constructor
      · exact fun h => ⟨i, rfl, h⟩
      · intro h
        obtain ⟨k, rfl, hbs⟩ := h
        exact hbs
  | cons a as ih =>
      show a ∈ l.arcsFrom i ∧ l.Path a.head (as ++ bs) j ↔ _
      rw [ih]
      constructor
      · intro h
        obtain ⟨ha, k, has, hbs⟩ := h
        exact ⟨k, ⟨ha, has⟩, hbs⟩
      · intro h
        obtain ⟨k, ⟨ha, has⟩, hbs⟩ := h
        exact ⟨ha, k, has, hbs⟩

theorem concat_iff : l.Path i (as ++ [a]) j
    ↔ ∃ k, l.Path i as k ∧ a ∈ l.arcsFrom k ∧ a.head = j :=
  append_iff

/-- Paths lead forward, and so do the arcs on them. -/
theorem forward (h : l.Path i as j) :
    i + as.length ≤ j ∧ ∀ a ∈ as, i ≤ a.tail ∧ a.tail < j := by
  induction as generalizing i with
  | nil =>
      have hij : i = j := h
      subst hij
      exact ⟨Nat.le_refl _, by simp⟩
  | cons a as ih =>
      obtain ⟨ha, has⟩ := h
      obtain ⟨htail, hlt, -⟩ := l.fits_arcsFrom ha
      obtain ⟨hlen, htails⟩ := ih has
      rw [List.length_cons]
      refine ⟨by omega, fun b hb => ?_⟩
      rcases List.mem_cons.1 hb with rfl | hb
      · omega
      · have hb := htails b hb
        omega

/-- Paths that make a step end within the lattice. -/
theorem lt_nodeCount (h : l.Path i as j) (hi : i < l.nodeCount) :
    j < l.nodeCount := by
  induction as generalizing i with
  | nil =>
      have hij : i = j := h
      exact hij ▸ hi
  | cons a as ih => exact ih h.2 (l.fits_arcsFrom h.1).2.2

end Path

/-- A lattice has the arcs of another, but for their order and their
costs. -/
def Covers (l l' : Lattice) : Prop :=
  ∀ i, ∀ a ∈ l'.arcsFrom i, ∃ b ∈ l.arcsFrom i,
    b.head = a.head ∧ b.label = a.label

theorem Covers.refl (l : Lattice) : l.Covers l :=
  fun _ a ha => ⟨a, ha, rfl, rfl⟩

/-- Where a lattice has the arcs of another, it has its paths. -/
theorem Covers.exists_path (h : l.Covers l') (has : l'.Path i as j) :
    ∃ bs, l.Path i bs j ∧ bs.length = as.length := by
  induction as generalizing i with
  | nil => exact ⟨[], has, rfl⟩
  | cons a as ih =>
      obtain ⟨ha, has⟩ := has
      obtain ⟨b, hb, hhead, -⟩ := h i a ha
      obtain ⟨bs, hbs, hlen⟩ := ih has
      rw [← hhead] at hbs
      exact ⟨b :: bs, ⟨hb, hbs⟩, by simp [hlen]⟩

-- ============================================================== noting

namespace Known

/-- The best distance known of a node. -/
def best? (d : Known) (j : Nat) : Option Nat := d[j]?.join

theorem best?_note (d : Known) (node k j : Nat) :
    (d.note node k).best? j
      = if node = j then d[j]?.map fun b => (b.map (min · k)).getD k
        else d.best? j := by
  unfold best? note
  rw [Array.getElem?_modify]
  split
  case isFalse => rfl
  case isTrue =>
    cases d[j]? with
    | none => rfl
    | some b => cases b <;> rfl

@[simp]
theorem size_note (d : Known) (node k : Nat) :
    (d.note node k).size = d.size :=
  Array.size_modify ..

/-- What is known after noting a path was known or is its length. -/
theorem eq_of_best?_note {node b : Nat}
    (h : (d.note node k).best? j = some b) :
    d.best? j = some b ∨ node = j ∧ b = k := by
  rw [best?_note] at h
  split at h
  case isFalse => exact Or.inl h
  case isTrue hnode =>
    unfold best?
    cases hj : d[j]? with
    | none =>
        rw [hj] at h
        cases h
    | some known =>
        rw [hj] at h
        cases known with
        | none =>
            injection h with h
            exact Or.inr ⟨hnode, h.symm⟩
        | some b' =>
            injection h with h
            have hmin : min b' k = b := h
            rcases Nat.le_total b' k with hle | hle
            · rw [Nat.min_eq_left hle] at hmin
              exact Or.inl (congrArg some hmin)
            · rw [Nat.min_eq_right hle] at hmin
              exact Or.inr ⟨hnode, hmin.symm⟩

/-- Noting a path makes nothing that is known worse. -/
theorem best?_note_le {b : Nat} (h : d.best? j = some b) (node k : Nat) :
    ∃ b', (d.note node k).best? j = some b' ∧ b' ≤ b := by
  rw [best?_note]
  split
  case isFalse => exact ⟨b, h, Nat.le_refl b⟩
  case isTrue =>
    have hj : d[j]? = some (some b) := Option.join_eq_some_iff.1 h
    rw [hj]
    exact ⟨min b k, rfl, Nat.min_le_left b k⟩

/-- Noting a path bounds what is known of its end. -/
theorem best?_note_self {node : Nat} (h : node < d.size) (k : Nat) :
    ∃ b, (d.note node k).best? node = some b ∧ b ≤ k := by
  rw [best?_note, if_pos rfl, Array.getElem?_eq_getElem h]
  cases d[node] with
  | none => exact ⟨k, rfl, Nat.le_refl k⟩
  | some b => exact ⟨min b k, rfl, Nat.min_le_right b k⟩

/-- Notes paths of `k` arcs to the heads of arcs. -/
def noteHeads (d : Known) (as : List Arc) (k : Nat) : Known :=
  as.foldl (fun d a => d.note a.head k) d

theorem size_noteHeads (d : Known) (as : List Arc) (k : Nat) :
    (d.noteHeads as k).size = d.size := by
  unfold noteHeads
  induction as generalizing d with
  | nil => rfl
  | cons a as ih => rw [List.foldl_cons, ih, size_note]

theorem eq_of_best?_noteHeads {b : Nat}
    (h : (d.noteHeads as k).best? j = some b) :
    d.best? j = some b ∨ ∃ a ∈ as, a.head = j ∧ b = k := by
  unfold noteHeads at h
  induction as generalizing d with
  | nil => exact Or.inl h
  | cons a as ih =>
      rcases ih h with h | ⟨a', ha', hhead⟩
      · rcases eq_of_best?_note h with h | hhead
        · exact Or.inl h
        · exact Or.inr ⟨a, List.mem_cons_self .., hhead⟩
      · exact Or.inr ⟨a', List.mem_cons_of_mem _ ha', hhead⟩

theorem best?_noteHeads_le {b : Nat} (h : d.best? j = some b)
    (as : List Arc) (k : Nat) :
    ∃ b', (d.noteHeads as k).best? j = some b' ∧ b' ≤ b := by
  unfold noteHeads
  induction as generalizing d b with
  | nil => exact ⟨b, h, Nat.le_refl b⟩
  | cons a as ih =>
      obtain ⟨b', hb', hle⟩ := best?_note_le h a.head k
      obtain ⟨b'', hb'', hle'⟩ := ih hb'
      exact ⟨b'', hb'', Nat.le_trans hle' hle⟩

theorem best?_noteHeads_self (ha : a ∈ as) (h : a.head < d.size) (k : Nat) :
    ∃ b, (d.noteHeads as k).best? a.head = some b ∧ b ≤ k := by
  induction as generalizing d with
  | nil => cases ha
  | cons a' as ih =>
      rcases List.mem_cons.1 ha with rfl | ha
      · obtain ⟨b, hb, hle⟩ := best?_note_self h k
        obtain ⟨b', hb', hle'⟩ := best?_noteHeads_le hb as k
        exact ⟨b', hb', Nat.le_trans hle' hle⟩
      · exact @ih (d.note a'.head k) ha (by rwa [size_note])

end Known

open Known

theorem settle_eq (l : Lattice) (d : Known) (node : Nat) :
    l.settle d node = match d.best? node with
      | none => d
      | some k => d.noteHeads (l.arcsFrom node) (k + 1) := rfl

-- =============================================================== sweep

/-- What is known from a node when the nodes before `m` have been
settled. -/
structure Swept (l : Lattice) (start m : Nat) (d : Known) : Prop where
  size_eq : d.size = l.nodeCount
  attained : ∀ j k, d.best? j = some k →
    ∃ as, l.Path start as j ∧ as.length = k
  bounded : ∀ j as, l.Path start as j → (∀ a ∈ as, a.tail < m) →
    ∃ k, d.best? j = some k ∧ k ≤ as.length

/-- At first only the start is known, which the path without arcs leads
to. -/
theorem swept_start (hi : i < l.nodeCount) :
    Swept l i i ((Array.replicate l.nodeCount none).modify i
      fun _ => some 0) := by
  have hbest : ∀ j, best? ((Array.replicate l.nodeCount none).modify i
      fun _ => some 0) j = if i = j then some 0 else none := by
    intro j
    unfold best?
    rw [Array.getElem?_modify, Array.getElem?_replicate]
    by_cases hij : i = j
    · subst hij
      simp [hi]
    · rw [if_neg hij, if_neg hij]
      split <;> rfl
  constructor
  · simp
  · intro j k h
    rw [hbest] at h
    split at h
    case isFalse => cases h
    case isTrue hij =>
      injection h with h
      exact ⟨[], hij, h⟩
  · intro j as has htails
    cases as with
    | nil =>
        have hij : i = j := has
        exact ⟨0, by rw [hbest, if_pos hij], Nat.le_refl 0⟩
    | cons a as =>
        -- the first arc leaves the start, which is not before itself
        have htail := (l.fits_arcsFrom has.1).1
        have hlt := htails a (List.mem_cons_self ..)
        omega

/-- No path leads to a node that is not known, so none leads over its arcs. -/
theorem Swept.skip (h : Swept l start m d) (hm : d.best? m = none) :
    Swept l start (m + 1) d := by
  refine ⟨h.size_eq, h.attained, fun j as has htails => ?_⟩
  refine h.bounded j as has fun a ha => ?_
  have hlt := htails a ha
  by_contra hnot
  have htail : a.tail = m := by omega
  -- a path over an arc from this node leads to the node first
  obtain ⟨front, back, rfl⟩ := List.append_of_mem ha
  obtain ⟨k, hfront, harc, -⟩ := Path.append_iff.1 has
  have hk : a.tail = k := (l.fits_arcsFrom harc).1
  rw [← hk, htail] at hfront
  obtain ⟨b, hb, -⟩ := h.bounded m front hfront fun b hb =>
    (hfront.forward.2 b hb).2
  rw [hm] at hb
  cases hb

/-- A path over earlier nodes and then an arc from a known node is bounded by
what the heads of the arcs of that node are noted with. -/
theorem Swept.bounded_concat {k : Nat} (h : Swept l start m d)
    (hm : d.best? m = some k) {front : List Arc} {a : Arc}
    (hfront : l.Path start front m) (ha : a ∈ l.arcsFrom m) :
    ∃ b, (d.noteHeads (l.arcsFrom m) (k + 1)).best? a.head = some b
      ∧ b ≤ (front ++ [a]).length := by
  obtain ⟨b, hb, hle⟩ := h.bounded m front hfront fun b hb =>
    (hfront.forward.2 b hb).2
  rw [hm] at hb
  injection hb with hb
  have hhead : a.head < d.size := by
    rw [h.size_eq]
    exact (l.fits_arcsFrom ha).2.2
  obtain ⟨b', hb', hle'⟩ := best?_noteHeads_self ha hhead (k + 1)
  refine ⟨b', hb', ?_⟩
  rw [List.length_append, List.length_singleton]
  omega

/-- Noting the heads of the arcs of a known node settles the node. -/
theorem Swept.noteHeads {k : Nat} (h : Swept l start m d)
    (hm : d.best? m = some k) :
    Swept l start (m + 1) (d.noteHeads (l.arcsFrom m) (k + 1)) := by
  -- what was bounded before is bounded by less
  have hkept : ∀ {j as}, l.Path start as j → (∀ a ∈ as, a.tail < m) →
      ∃ b, (d.noteHeads (l.arcsFrom m) (k + 1)).best? j = some b
        ∧ b ≤ as.length := by
    intro j as has htails
    obtain ⟨b, hb, hle⟩ := h.bounded j as has htails
    obtain ⟨b', hb', hle'⟩ := best?_noteHeads_le hb (l.arcsFrom m) (k + 1)
    exact ⟨b', hb', Nat.le_trans hle' hle⟩
  constructor
  · rw [size_noteHeads, h.size_eq]
  · intro j b hb
    rcases eq_of_best?_noteHeads hb with hb | ⟨a, ha, hhead, rfl⟩
    · exact h.attained j b hb
    · obtain ⟨as, has, hlen⟩ := h.attained m k hm
      exact ⟨as ++ [a], Path.concat_iff.2 ⟨m, has, ha, hhead⟩,
        by simp [hlen]⟩
  · intro j as has htails
    rcases List.eq_nil_or_concat as with rfl | ⟨front, a, hconcat⟩
    · exact hkept has (by simp)
    rw [List.concat_eq_append] at hconcat
    subst hconcat
    obtain ⟨t, hfront, ha, rfl⟩ := Path.concat_iff.1 has
    have htail : a.tail = t := (l.fits_arcsFrom ha).1
    have hlt := htails a (by simp)
    by_cases hnew : t = m
    · subst hnew
      exact h.bounded_concat hm hfront ha
    · refine hkept has fun b hb => ?_
      rcases List.mem_append.1 hb with hb | hb
      · have hbefore := (hfront.forward.2 b hb).2
        omega
      · rw [List.mem_singleton] at hb
        subst hb
        omega

/-- Settling the next node. -/
theorem Swept.settle (h : Swept l start m d) : Swept l start (m + 1)
    (l.settle d m) := by
  rw [settle_eq]
  cases hm : d.best? m with
  | none => exact h.skip hm
  | some k => exact h.noteHeads hm

theorem Swept.foldl (h : Swept l start m d) (n : Nat) :
    Swept l start (m + n) ((List.range' m n).foldl l.settle d) := by
  induction n generalizing m d with
  | zero => exact h
  | succ n ih =>
      rw [List.range'_succ, List.foldl_cons]
      have hrest := ih h.settle
      rwa [Nat.add_right_comm] at hrest

theorem swept_distancesFrom (hi : i < l.nodeCount) :
    Swept l i l.nodeCount (l.distancesFrom i) := by
  have h := (swept_start hi).foldl (l.nodeCount - i)
  rwa [Nat.add_sub_cancel' (Nat.le_of_lt hi)] at h

-- ============================================================ distances

/-- No path is shorter than the distance of its end. -/
theorem exists_distance_le (hi : i < l.nodeCount) (has : l.Path i as j) :
    ∃ k, l.distance i j = some k ∧ k ≤ as.length := by
  unfold distance
  rw [if_pos hi]
  refine (swept_distancesFrom hi).bounded j as has fun a ha => ?_
  have hbefore := (has.forward.2 a ha).2
  have hj := has.lt_nodeCount hi
  omega

/-- A distance is the number of arcs on a path. -/
theorem exists_path_of_distance (h : l.distance i j = some n) :
    i < l.nodeCount ∧ ∃ as, l.Path i as j ∧ as.length = n := by
  unfold distance at h
  split at h
  case isFalse => cases h
  case isTrue hi => exact ⟨hi, (swept_distancesFrom hi).attained j n h⟩

/-- A distance is the least number of arcs on a path. -/
theorem distance_eq_some (hi : i < l.nodeCount) : l.distance i j = some n
    ↔ (∃ as, l.Path i as j ∧ as.length = n)
      ∧ ∀ as, l.Path i as j → n ≤ as.length := by
  constructor
  · intro hn
    refine ⟨(exists_path_of_distance hn).2, fun as has => ?_⟩
    obtain ⟨k, hk, hle⟩ := exists_distance_le hi has
    rw [hn] at hk
    injection hk with hk
    omega
  · intro h
    obtain ⟨⟨as, has, hlen⟩, hleast⟩ := h
    obtain ⟨k, hk, hle⟩ := exists_distance_le hi has
    obtain ⟨-, bs, hbs, hlen'⟩ := exists_path_of_distance hk
    have hge := hleast bs hbs
    have hkn : k = n := by omega
    rw [hk, hkn]

/-- Where a lattice has the arcs of another one with as many nodes, no
distance is greater. -/
theorem Covers.distance_le (h : l.Covers l')
    (hnodes : l.nodeCount = l'.nodeCount) (hn : l'.distance i j = some n) :
    ∃ m, l.distance i j = some m ∧ m ≤ n := by
  obtain ⟨hi, as, has, rfl⟩ := exists_path_of_distance hn
  obtain ⟨bs, hbs, hlen⟩ := h.exists_path has
  rw [← hlen]
  exact exists_distance_le (by omega) hbs

end LatticeParsing.Lattice
