/-
Lattices that are built from arcs or from a sentence.

A list of arcs makes a lattice if there is a node and every arc leads ahead
to a node that there is (`Arc.LeadsAhead`). Otherwise the first arc that does
not is reported (`FirstRefused`), unless there is no node at all. The lattice
keeps at each node the arcs that leave it, in the order of the list.

Whatever it is built from, a lattice measures its paths (`MeasuresPaths`):
the distance between two nodes is the least number of arcs on a path, and
there is none where no path leads. In a sentence the arcs lead from each node
to the next, so all paths between two nodes are equally long.
-/
import LatticeParsing.Proofs.Lattice.Distances

namespace LatticeParsing

variable {nodes t i j n : Nat} {a : Arc} {as arcs : List Arc}

-- ================================================================ arcs

/-- Whether an arc leads ahead to one of `nodes` nodes. -/
def Arc.LeadsAhead (nodes : Nat) (a : Arc) : Prop :=
  a.tail < a.head ∧ a.head < nodes

/-- Nothing keeps an arc out of a lattice if it leads ahead to a node that
there is. -/
theorem Arc.error?_eq_none : a.error? nodes = none ↔ a.LeadsAhead nodes := by
  unfold Arc.error? LeadsAhead
  by_cases hback : a.head ≤ a.tail
  · simp [hback, Nat.not_lt.mpr hback]
  · by_cases hout : nodes ≤ a.head
    · simp [hback, hout, Nat.not_lt.mpr hout]
    · simp only [if_neg hback, if_neg hout, true_iff]
      omega

/-- That an arc leads back comes before that it leads out of the lattice. -/
theorem Arc.error?_eq_some {e : LatticeError} : a.error? nodes = some e
    ↔ a.head ≤ a.tail ∧ e = .backwardArc a.tail a.head
      ∨ a.tail < a.head ∧ nodes ≤ a.head
        ∧ e = .arcOutOfRange a.tail a.head nodes := by
  unfold Arc.error?
  by_cases hback : a.head ≤ a.tail
  · simp [hback, Nat.not_lt.mpr hback, eq_comm]
  · by_cases hout : nodes ≤ a.head
    · simp [hback, hout, Nat.lt_of_not_le hback, eq_comm]
    · simp [hback, hout]

namespace Lattice

variable {l : Lattice}

-- ============================================================ building

/-- Whether `e` reports the first arc of a list that does not lead ahead to
one of `nodes` nodes. -/
def FirstRefused (nodes : Nat) (arcs : List Arc) (e : LatticeError) : Prop :=
  ∃ front a rest, arcs = front ++ a :: rest
    ∧ (∀ b ∈ front, b.LeadsAhead nodes)
    ∧ (a.head ≤ a.tail ∧ e = .backwardArc a.tail a.head
      ∨ a.tail < a.head ∧ nodes ≤ a.head
        ∧ e = .arcOutOfRange a.tail a.head nodes)

theorem findSome?_error? {e : LatticeError} :
    arcs.findSome? (Arc.error? nodes) = some e
      ↔ FirstRefused nodes arcs e := by
  rw [List.findSome?_eq_some_iff]
  unfold FirstRefused
  simp only [Arc.error?_eq_none, Arc.error?_eq_some]
  refine exists_congr fun front => exists_congr fun a =>
    exists_congr fun rest => and_congr_right fun _ => and_comm

/-- A lattice is made of arcs that lead ahead to nodes that there are. -/
theorem ofArcs_of_forall (hn : 0 < n) (h : ∀ a ∈ arcs, a.LeadsAhead n) :
    ∃ l, ofArcs n arcs = .ok l ∧ l.nodeCount = n
      ∧ ∀ t, l.arcsFrom t = arcsWithTail arcs t := by
  have hnone : arcs.findSome? (Arc.error? n) = none :=
    List.findSome?_eq_none_iff.mpr fun a ha => Arc.error?_eq_none.mpr (h a ha)
  unfold ofArcs
  rw [dif_neg (Nat.ne_of_gt hn)]
  split
  case h_1 e he =>
    rw [hnone] at he
    cases he
  case h_2 =>
    refine ⟨_, rfl, by simp [nodeCount], fun t => ?_⟩
    unfold arcsFrom
    by_cases ht : t < n
    · simp [ht]
    · have hnil : arcsWithTail arcs t = [] := by
        refine List.filter_eq_nil_iff.mpr fun a ha htail => ?_
        obtain ⟨hforward, hhead⟩ := h a ha
        rw [beq_iff_eq] at htail
        omega
      simp [ht, hnil]

theorem forall_of_ofArcs (h : ofArcs n arcs = .ok l) :
    0 < n ∧ ∀ a ∈ arcs, a.LeadsAhead n := by
  unfold ofArcs at h
  split at h
  case isTrue => cases h
  case isFalse hn =>
    split at h
    case h_1 => cases h
    case h_2 hnone =>
      refine ⟨Nat.pos_of_ne_zero hn, fun a ha => ?_⟩
      exact Arc.error?_eq_none.mp (List.findSome?_eq_none_iff.mp hnone a ha)

/-- A list of arcs is refused for want of nodes, or else for its first arc
that does not lead ahead to a node. -/
theorem ofArcs_eq_error {e : LatticeError} : ofArcs nodes arcs = .error e
    ↔ nodes = 0 ∧ e = .empty ∨ 0 < nodes ∧ FirstRefused nodes arcs e := by
  unfold ofArcs
  by_cases hn : nodes = 0
  · simp [hn, eq_comm]
  · rw [dif_neg hn, ← findSome?_error?]
    simp only [hn, false_and, false_or, Nat.pos_of_ne_zero hn, true_and]
    split
    case h_1 e' he => simp [he]
    case h_2 hnone => simp [hnone]

-- =========================================================== measuring

/-- Whether distances are least numbers of arcs on paths. -/
structure MeasuresPaths (l : Lattice) : Prop where
  /-- A distance is reached by a path, and no path is shorter. -/
  least : ∀ i j d, i < l.nodeCount → j < l.nodeCount →
    (l.distance i j = some d ↔ (∃ as, l.Path i as j ∧ as.length = d)
      ∧ ∀ as, l.Path i as j → d ≤ as.length)
  /-- Without a distance there is no path. -/
  apart : ∀ i j, i < l.nodeCount → j < l.nodeCount →
    (l.distance i j = none ↔ ∀ as, ¬ l.Path i as j)
  backward : ∀ i j, j < i → l.distance i j = none
  self : ∀ i, i < l.nodeCount → l.distance i i = some 0
  outside : ∀ i j, l.nodeCount ≤ i ∨ l.nodeCount ≤ j → l.distance i j = none

theorem distance_eq_none (hi : i < l.nodeCount) :
    l.distance i j = none ↔ ∀ as, ¬ l.Path i as j := by
  constructor
  · intro hnone as has
    obtain ⟨k, hk, -⟩ := exists_distance_le hi has
    rw [hnone] at hk
    cases hk
  · intro hno
    cases hd : l.distance i j with
    | none => rfl
    | some d =>
        obtain ⟨-, as, has, -⟩ := exists_path_of_distance hd
        exact absurd has (hno as)

/-- A distance is that of a node ahead, and of one that there is. -/
theorem le_and_lt_of_distance {d : Nat} (h : l.distance i j = some d) :
    i ≤ j ∧ i < l.nodeCount ∧ j < l.nodeCount := by
  obtain ⟨hi, as, has, -⟩ := exists_path_of_distance h
  have hforward := has.forward.1
  exact ⟨by omega, hi, has.lt_nodeCount hi⟩

theorem measuresPaths (l : Lattice) : l.MeasuresPaths where
  least := fun _ _ _ hi _ => distance_eq_some hi
  apart := fun _ _ hi _ => distance_eq_none hi
  backward := by
    intro i j hlt
    cases hd : l.distance i j with
    | none => rfl
    | some d =>
        have hle := (le_and_lt_of_distance hd).1
        omega
  self := fun i hi =>
    (distance_eq_some hi).mpr ⟨⟨[], rfl, rfl⟩, fun _ _ => Nat.zero_le _⟩
  outside := by
    intro i j hout
    cases hd : l.distance i j with
    | none => rfl
    | some d =>
        obtain ⟨-, hi, hj⟩ := le_and_lt_of_distance hd
        omega

-- =========================================================== sentences

variable {words : List Symbol}

theorem nodeCount_ofSentence (words : List Symbol) :
    (ofSentence words).nodeCount = words.length + 1 := by
  simp [nodeCount, ofSentence]

theorem sourceLength_ofSentence (words : List Symbol) :
    (ofSentence words).sourceLength = words.length := by
  unfold sourceLength
  rw [nodeCount_ofSentence]
  rfl

/-- Each word of a sentence is the label of an arc to the next node, the only
one that leaves its node. -/
theorem arcsFrom_ofSentence (words : List Symbol) (t : Nat) :
    (ofSentence words).arcsFrom t
      = (words[t]?.map fun w => (⟨t, t + 1, Cost.zero, w⟩ : Arc)).toList := by
  unfold arcsFrom ofSentence
  by_cases ht : t < words.length + 1
  · simp only [Array.getElem?_ofFn, ht, dif_pos, Option.getD_some]
    cases words[t]? <;> rfl
  · have hnone : words[t]? = none := List.getElem?_eq_none (by omega)
    simp [ht, hnone]

/-- An arc of a sentence leads to the next node, and its label is the word
there. -/
theorem mem_arcsFrom_ofSentence (h : a ∈ (ofSentence words).arcsFrom t) :
    a.head = t + 1 ∧ words[t]? = some a.label := by
  rw [arcsFrom_ofSentence, Option.mem_toList, Option.map_eq_some_iff] at h
  obtain ⟨w, hw, rfl⟩ := h
  exact ⟨rfl, hw⟩

/-- Paths through a sentence go from each node to the next. -/
theorem Path.length_ofSentence (h : (ofSentence words).Path i as j) :
    i + as.length = j := by
  induction as generalizing i with
  | nil => exact h
  | cons a as ih =>
      obtain ⟨ha, has⟩ := h
      rw [(mem_arcsFrom_ofSentence ha).1] at has
      have hrest : i + 1 + as.length = j := ih has
      rw [List.length_cons]
      omega

theorem exists_path_ofSentence (h : i + n ≤ words.length) :
    ∃ as, (ofSentence words).Path i as (i + n) := by
  induction n generalizing i with
  | zero => exact ⟨[], rfl⟩
  | succ n ih =>
      have hi : i < words.length := by omega
      obtain ⟨as, has⟩ := ih (show i + 1 + n ≤ words.length by omega)
      refine ⟨⟨i, i + 1, Cost.zero, words[i]⟩ :: as, ?_, ?_⟩
      · rw [arcsFrom_ofSentence, List.getElem?_eq_getElem hi]
        exact List.mem_singleton_self _
      · rwa [Nat.add_right_comm] at has

theorem distance_ofSentence (hij : i ≤ j) (hj : j ≤ words.length) :
    (ofSentence words).distance i j = some (j - i) := by
  have hi : i < (ofSentence words).nodeCount := by
    rw [nodeCount_ofSentence]
    omega
  rw [distance_eq_some hi]
  constructor
  · have hends : i + (j - i) = j := Nat.add_sub_cancel' hij
    obtain ⟨as, has⟩ := exists_path_ofSentence (hends.symm ▸ hj)
    rw [hends] at has
    have hlength := has.length_ofSentence
    refine ⟨as, has, ?_⟩
    omega
  · intro as has
    have hlength := has.length_ofSentence
    omega

end Lattice

open LatticeParsing.Lattice in
/-- Arcs make a lattice just if there is a node and each of them leads ahead
to a node. If not, it is said that there is no node, or else what is wrong with
the first arc of the list that does not: that it leads back, or that it leads
out of the lattice. The lattice keeps the arcs at the nodes that they leave, in
the order of the list, and its distances are the least numbers of arcs on
paths. So are those in the lattice of a sentence, where the distance from a
node to a later one is the number of words between them. -/
theorem lattices_measure_their_paths (nodes : Nat) (arcs : List Arc) :
    ((∃ l, ofArcs nodes arcs = .ok l)
        ↔ 0 < nodes ∧ ∀ a ∈ arcs, a.LeadsAhead nodes)
      ∧ (∀ e, ofArcs nodes arcs = .error e
          ↔ nodes = 0 ∧ e = .empty
            ∨ 0 < nodes ∧ FirstRefused nodes arcs e)
      ∧ (∀ l, ofArcs nodes arcs = .ok l →
          l.nodeCount = nodes
            ∧ (∀ t, l.arcsFrom t = arcs.filter fun a => a.tail = t)
            ∧ l.MeasuresPaths)
      ∧ ∀ words : List Symbol,
          (ofSentence words).nodeCount = words.length + 1
            ∧ (∀ t, (ofSentence words).arcsFrom t
                = (words[t]?.map fun w =>
                    (⟨t, t + 1, Cost.zero, w⟩ : Arc)).toList)
            ∧ (ofSentence words).MeasuresPaths
            ∧ ∀ i j, i ≤ j → j ≤ words.length →
                (ofSentence words).distance i j = some (j - i) := by
  refine ⟨⟨?_, ?_⟩, fun e => ofArcs_eq_error, ?_, fun words => ?_⟩
  · intro h
    obtain ⟨l, hl⟩ := h
    exact forall_of_ofArcs hl
  · intro h
    obtain ⟨l, hl, -⟩ := ofArcs_of_forall h.1 h.2
    exact ⟨l, hl⟩
  · intro l hl
    obtain ⟨hn, hahead⟩ := forall_of_ofArcs hl
    obtain ⟨l', hl', hcount, harcs⟩ := ofArcs_of_forall hn hahead
    rw [hl] at hl'
    injection hl' with hl'
    subst hl'
    exact ⟨hcount, harcs, l.measuresPaths⟩
  · exact ⟨nodeCount_ofSentence words, arcsFrom_ofSentence words,
      measuresPaths _, fun i j => distance_ofSentence⟩

end LatticeParsing
