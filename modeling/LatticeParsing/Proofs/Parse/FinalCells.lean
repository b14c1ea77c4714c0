/-
The cells at the end of a parse, by equations.

Before a span is taken its cell holds only what long arcs have brought from
spans of the row that have been taken (`Pending`). Taking the span adds what
its expansion adds, records what is completed, and starts rules; nothing
that this reads or writes is changed later. So the cells at the end satisfy
the equations of the step, with the end in the place of every state on the
way (`itemsAt_final`, `entry?_final`).

Antecedents have been found before the items and the first derivations that
refer to them (`Founded`).
-/
import LatticeParsing.Proofs.Parse.Charting
import Mathlib.Data.List.Sort

namespace LatticeParsing.Charting

open Parse ItemChart

variable {l : Lattice} {gs : List GrammarView} {x : Charting}
  {done : List (Nat × Nat)} {s : Nat × Nat} {i j : Nat}

-- ============================================================= pending

/-- Where the spans of a row that have been taken end, in order. -/
def rowEnds (done : List (Nat × Nat)) (i : Nat) : List Nat :=
  (done.filter fun s => s.1 = i).map (·.2)

theorem mem_rowEnds {h : Nat} : h ∈ rowEnds done i ↔ (i, h) ∈ done := by
  simp [rowEnds]

theorem rowEnds_concat (done : List (Nat × Nat)) (a b i : Nat) :
    rowEnds (done ++ [(a, b)]) i
      = rowEnds done i ++ if a = i then [b] else [] := by
  unfold rowEnds
  rw [List.filter_append, List.map_append]
  by_cases ha : a = i <;> simp [ha]

/-- What cells hold before their span is taken: the items that arcs bring
from the spans of the row that have been taken, and no constituents. -/
structure Pending (l : Lattice) (done : List (Nat × Nat)) (x : Charting) :
    Prop where
  items : ∀ g i j, i < j → (i, j) ∉ done →
    (x.chart g).itemsAt i j
      = (rowEnds done i).flatMap fun h => landing g l i (h - 1) j (x.chart g)
  cells : ∀ i j, (i, j) ∉ done → x.forest.cellAt i j = []

theorem pending_seeded (l : Lattice) : (seeded l).Pending l [] where
  items := fun _ _ _ hij _ => itemsAt_seeded (Nat.ne_of_lt hij)
  cells := fun i j _ => Forest.cellAt_empty l.nodeCount i j

/-- What arrives in a row does not depend on whether a span has been taken
whose end is not before the tails of the arcs. -/
theorem landing_next (hx : x.Fit l) {a b i k : Nat}
    (hk : ¬ (i = a ∧ b ≤ k)) (g : GrammarView) (j : Nat) :
    landing g l i k j ((x.next l gs (a, b)).chart g)
      = landing g l i k j (x.chart g) :=
  landing_congr g (next_itemsAt hx hk g)

/-- Taking a span keeps the cells of the spans that remain as described, if
it does not lie within one that has been taken. -/
theorem Pending.next (h : x.Pending l done) (hx : x.Fit l)
    (hs : Proper l s) (hdone : ∀ t ∈ done, ¬ Within s t) :
    (x.next l gs s).Pending l (done ++ [s]) where
  items := by
    intro g i j hij hnot
    obtain ⟨a, b⟩ := s
    have hb := hs.le_nodeCount
    have hab : a < b := hs.1
    have hold : (i, j) ∉ done := fun hmem =>
      hnot (List.mem_append_left _ hmem)
    have hrow : ∀ k ∈ rowEnds done i,
        landing g l i (k - 1) j ((x.next l gs (a, b)).chart g)
          = landing g l i (k - 1) j (x.chart g) := by
      intro k hk
      refine landing_next hx ?_ g j
      intro h'
      obtain ⟨rfl, hbk⟩ := h'
      exact hdone (i, k) (mem_rowEnds.1 hk) ⟨Nat.le_refl i, by omega⟩
    rw [rowEnds_concat, List.flatMap_append, List.flatMap_congr hrow,
      ← h.items g i j hij hold]
    -- only in the row of the span is anything added to the cell
    by_cases hia : a = i
    · subst hia
      have hjb : j ≠ b := by
        intro heq
        subst heq
        exact hnot (List.mem_append_right _ (List.mem_singleton_self _))
      have hlast : landing g l a (b - 1) j ((x.next l gs (a, b)).chart g)
          = landing g l a (b - 1) j (x.chart g) :=
        landing_next hx (by omega) g j
      rw [if_pos rfl, List.flatMap_singleton, hlast]
      by_cases hlater : b < j
      · show (ItemChart.start g _ _ _ _).itemsAt a j = _
        rw [itemsAt_start_of_ne g (placed_expanded hx (a, b) g) (by omega)]
        exact itemsAt_expand_later g (hx.placed g) hab (by rwa [hx.limit])
          (Nat.le_of_eq (hx.limit g).symm) hlater
      · rw [next_itemsAt hx (by omega),
          (hx.placed g).landing_eq_nil g (by omega), List.append_nil]
    · rw [if_neg hia, List.flatMap_nil, List.append_nil]
      exact next_itemsAt hx (fun h => hia h.1.symm) g
  cells := by
    intro i j hnot
    obtain ⟨ds, made, hrec⟩ :=
      records_next gs hx (Nat.le_of_lt hs.1) hs.le_nodeCount
    rw [hrec.cellAt_of_ne i j, h.cells i j]
    · exact fun hmem => hnot (List.mem_append_left _ hmem)
    · intro h'
      obtain ⟨rfl, rfl⟩ := h'
      exact hnot (List.mem_append_right _ (List.mem_singleton_self _))

/-- Spans taken in an order in which no span is followed by one within
it. -/
theorem Pending.foldl {ss : List (Nat × Nat)} (h : x.Pending l done)
    (hx : x.Fit l) (hss : ∀ s ∈ ss, Proper l s)
    (hdone : (done ++ ss).Pairwise fun s t => ¬ Within t s) :
    (ss.foldl (Charting.next l gs) x).Pending l (done ++ ss) := by
  induction ss generalizing x done with
  | nil =>
      rw [List.append_nil]
      exact h
  | cons s ss ih =>
      have hs := hss s (List.mem_cons_self ..)
      have hbefore : ∀ t ∈ done, ¬ Within s t := fun t ht =>
        (List.pairwise_append.1 hdone).2.2 t ht s (List.mem_cons_self ..)
      have hsplit : done ++ s :: ss = (done ++ [s]) ++ ss := by simp
      rw [hsplit] at hdone ⊢
      exact ih (h.next hx hs hbefore)
        (hx.next (Nat.le_of_lt hs.1) hs.le_nodeCount)
        (fun t ht => hss t (List.mem_cons_of_mem _ ht)) hdone

theorem pending_foldl {A : List (Nat × Nat)} (hA : A <+: order l) :
    (A.foldl (Charting.next l gs) (seeded l)).Pending l A := by
  obtain ⟨B, hB⟩ := hA
  have hproper : ∀ s ∈ A, Proper l s := fun s hs =>
    proper_of_mem_order (hB ▸ List.mem_append_left _ hs)
  have hpairwise := order_pairwise l
  rw [← hB, List.pairwise_append] at hpairwise
  have hfold : (A.foldl (Charting.next l gs) (seeded l)).Pending l ([] ++ A) :=
    (pending_seeded l).foldl (fit_seeded l) hproper (by simpa using hpairwise.1)
  simpa using hfold

-- =============================================================== order

/-- What comes before a span in its row are the shorter spans of the row,
ascending, and what comes after it does not lie within it. -/
theorem order_split {A B : List (Nat × Nat)}
    (horder : order l = A ++ (i, j) :: B) :
    (∀ t ∈ B, ¬ Within t (i, j)) ∧ (i, j) ∉ A
      ∧ rowEnds A i = List.range' (i + 1) (j - (i + 1)) := by
  obtain ⟨hij, hj⟩ : i < j ∧ j ≤ l.sourceLength := mem_order.1
    (horder ▸ List.mem_append_right _ (List.mem_cons_self ..))
  have hpairwise := order_pairwise l
  rw [horder, List.pairwise_append, List.pairwise_cons] at hpairwise
  obtain ⟨hA, ⟨hB, -⟩, hAB⟩ := hpairwise
  have hnot : (i, j) ∉ A := fun hmem =>
    hAB (i, j) hmem (i, j) (List.mem_cons_self ..) (.refl _)
  have hends : (rowEnds A i).Pairwise (· < ·) := by
    unfold rowEnds
    rw [List.pairwise_map]
    refine (hA.filter _).imp_of_mem fun {s t} hs ht hst => ?_
    simp only [List.mem_filter, decide_eq_true_eq] at hs ht
    simp only [Within] at hst
    omega
  refine ⟨hB, hnot, ?_⟩
  -- both lists ascend, so it is enough that they have the same members
  refine hends.eq_of_mem_iff List.pairwise_lt_range' fun k => ?_
  rw [mem_rowEnds, List.mem_range'_1]
  constructor
  · intro hk
    have hproper : Proper l (i, k) := proper_of_mem_order
      (horder ▸ List.mem_append_left _ hk)
    have hback := hAB (i, k) hk (i, j) (List.mem_cons_self ..)
    simp only [Within] at hback
    have hik : i < k := hproper.1
    omega
  · intro h
    obtain ⟨hik, hkj⟩ := h
    have hmem : (i, k) ∈ order l := mem_order.2 ⟨by omega, by omega⟩
    rw [horder, List.mem_append, List.mem_cons] at hmem
    rcases hmem with hmem | heq | hmem
    · exact hmem
    · injection heq with _ heq
      omega
    · exact absurd ⟨Nat.le_refl i, by show k ≤ j; omega⟩ (hB _ hmem)

-- =============================================================== a span

/-- The items over a span but for those that start with a constituent over
the whole of it, in the order in which they are added: those that long arcs
bring, those that end with a constituent, and those that end with an arc
from the node before. -/
def arrivals (l : Lattice) (x : Charting) (i j : Nat) (g : GrammarView) :
    List Item :=
  (List.range' (i + 1) (j - (i + 1))).flatMap
      (fun k => landing g l i (k - 1) j (x.chart g))
    ++ (List.range' (i + 1) (j - (i + 1))).flatMap
      (fun k => overConstituents g x.forest false i k j (x.chart g))
    ++ landing g l i (j - 1) j (x.chart g)

theorem arrivals_congr {x y : Charting} {g : GrammarView}
    (hitems : ∀ k, k < j →
      (x.chart g).itemsAt i k = (y.chart g).itemsAt i k)
    (hcells : ∀ k, i < k → x.forest.cellAt k j = y.forest.cellAt k j)
    (hij : i < j) : arrivals l x i j g = arrivals l y i j g := by
  unfold arrivals
  congr 1
  · congr 1
    · refine List.flatMap_congr fun k hk => landing_congr g (hitems _ ?_)
      have hk := List.mem_range'_1.1 hk
      omega
    · refine List.flatMap_congr fun k hk => ?_
      have hk := List.mem_range'_1.1 hk
      exact overConstituents_congr g false (hitems k (by omega))
        (hcells k (by omega))
  · exact landing_congr g (hitems _ (by omega))

/-- The state in which a span is taken, and what is known of it. -/
structure Taking (l : Lattice) (gs : List GrammarView) (i j : Nat)
    (x : Charting) : Prop where
  fit : x.Fit l
  items : ∀ g, (x.chart g).itemsAt i j
    = (List.range' (i + 1) (j - (i + 1))).flatMap fun k =>
        landing g l i (k - 1) j (x.chart g)
  cell : x.forest.cellAt i j = []
  agrees : AgreeWithin (i, j) (x.next l gs (i, j)) (final l gs)

/-- Every span is taken in such a state. -/
theorem taking_of_order (gs : List GrammarView) {A B : List (Nat × Nat)}
    (horder : order l = A ++ (i, j) :: B) :
    Taking l gs i j (A.foldl (Charting.next l gs) (seeded l)) := by
  obtain ⟨hB, hnot, hends⟩ := order_split horder
  obtain ⟨hij, hj⟩ : i < j ∧ j ≤ l.sourceLength := mem_order.1
    (horder ▸ List.mem_append_right _ (List.mem_cons_self ..))
  have hproper : ∀ s ∈ A ++ (i, j) :: B, Proper l s := fun s hs =>
    proper_of_mem_order (horder ▸ hs)
  have hpending : (A.foldl (Charting.next l gs) (seeded l)).Pending l A :=
    pending_foldl ⟨(i, j) :: B, horder.symm⟩
  have hfit : (A.foldl (Charting.next l gs) (seeded l)).Fit l :=
    (fit_seeded l).foldl fun s hs => hproper s (List.mem_append_left _ hs)
  refine ⟨hfit, fun g => ?_, hpending.cells i j hnot, ?_⟩
  · rw [hpending.items g i j hij hnot, hends]
  · have hspan : Proper l (i, j) := ⟨hij, hj⟩
    have hB' : ∀ t ∈ B, Proper l t := fun t ht =>
      hproper t (List.mem_append_right _ (List.mem_cons_of_mem _ ht))
    unfold final
    rw [horder, List.foldl_append, List.foldl_cons]
    exact agreeWithin_foldl
      (hfit.next (Nat.le_of_lt hspan.1) hspan.le_nodeCount) hB' hB

theorem exists_taking (gs : List GrammarView) (hij : i < j)
    (hj : j ≤ l.sourceLength) : ∃ x, Taking l gs i j x := by
  obtain ⟨A, B, horder⟩ := List.append_of_mem (mem_order.2 ⟨hij, hj⟩)
  exact ⟨_, taking_of_order gs horder⟩

namespace Taking

variable (h : Taking l gs i j x)

include h

/-- Shorter spans within the span are complete when it is taken. -/
theorem items_eq {k : Nat} (hk : k < j) (g : GrammarView) :
    (x.chart g).itemsAt i k = ((final l gs).chart g).itemsAt i k := by
  rw [h.agrees.items g i k ⟨Nat.le_refl i, Nat.le_of_lt hk⟩]
  exact (next_itemsAt h.fit (by omega) g).symm

theorem cellAt_eq {k : Nat} (hij : i < j) (hj : j ≤ l.sourceLength)
    (hk : i < k) : x.forest.cellAt k j = (final l gs).forest.cellAt k j := by
  have hspan : Proper l (i, j) := ⟨hij, hj⟩
  obtain ⟨ds, made, hrec⟩ :=
    records_next gs h.fit (Nat.le_of_lt hij) hspan.le_nodeCount
  rw [h.agrees.cells k j ⟨Nat.le_of_lt hk, Nat.le_refl j⟩]
  exact (hrec.cellAt_of_ne k j (by omega)).symm

theorem arrivals_eq (hij : i < j) (hj : j ≤ l.sourceLength)
    (g : GrammarView) :
    arrivals l x i j g = arrivals l (final l gs) i j g :=
  arrivals_congr (fun _ hk => h.items_eq hk g)
    (fun _ hk => h.cellAt_eq hij hj hk) hij

/-- Expanding the span completes it up to the items that are started over
it. -/
theorem itemsAt_expanded (hij : i < j) (hj : j ≤ l.sourceLength)
    (g : GrammarView) :
    (x.expanded l (i, j) g).itemsAt i j = arrivals l (final l gs) i j g := by
  have hspan : Proper l (i, j) := ⟨hij, hj⟩
  rw [← h.arrivals_eq hij hj g]
  unfold expanded arrivals
  rw [itemsAt_expand_self g (h.fit.placed g) hij
    (by rw [h.fit.limit]; exact hspan.le_nodeCount), h.items]

end Taking

-- ============================================================= the end

/-- The items over a span at the end: those that arrive there and those that
start with a constituent over the whole of it. -/
theorem itemsAt_final (hij : i < j) (hj : j ≤ l.sourceLength)
    (g : GrammarView) :
    ((final l gs).chart g).itemsAt i j
      = arrivals l (final l gs) i j g
        ++ overConstituents g (final l gs).forest true i i j
            ((final l gs).chart g) := by
  obtain ⟨x, h⟩ := exists_taking gs hij hj
  have hspan : Proper l (i, j) := ⟨hij, hj⟩
  have hlimit : j ≤ (x.expanded l (i, j) g).limit := by
    rw [limit_expanded h.fit]
    exact hspan.le_nodeCount
  rw [h.agrees.items g i j (.refl _)]
  show (ItemChart.start g _ _ _ _).itemsAt i j = _
  rw [itemsAt_start_self g (placed_expanded h.fit (i, j) g)
    (Nat.le_of_lt hij) hlimit, h.itemsAt_expanded hij hj g]
  congr 1
  refine overConstituents_congr g true ?_ (h.agrees.cells i j (.refl _)).symm
  rw [← h.items_eq hij g]
  exact itemsAt_expand_of_not_reached g (h.fit.placed g) (by omega)

/-- Over empty spans there are the items that seeding has put there. -/
theorem itemsAt_final_self (i : Nat) (g : GrammarView) :
    ((final l gs).chart g).itemsAt i i = ((seeded l).chart g).itemsAt i i := by
  refine (agreeWithin_foldl (fit_seeded l) (fun _ hs => proper_of_mem_order hs)
    fun t ht hwithin => ?_).items g i i (.refl _)
  have hlt := (proper_of_mem_order ht).1
  have hstart : i ≤ t.1 := hwithin.1
  have hstop : t.2 ≤ i := hwithin.2
  omega

/-- Beyond the lattice there are no items. -/
theorem itemsAt_final_outside (hij : i ≠ j)
    (hout : ¬ (i < j ∧ j ≤ l.sourceLength)) (g : GrammarView) :
    ((final l gs).chart g).itemsAt i j = [] := by
  by_cases hlt : i < j
  · have hpending : (final l gs).Pending l (order l) :=
      pending_foldl (List.prefix_refl _)
    have hout : (i, j) ∉ order l := fun hmem => hout (mem_order.1 hmem)
    rw [hpending.items g i j hlt hout, List.flatMap_eq_nil_iff]
    intro k hk
    rw [List.eq_nil_iff_forall_not_mem]
    intro y hy
    obtain ⟨hmem, -, hstop⟩ := mem_spanning.1 hy
    have hbound := stop_lt_of_mem_overArcs g hmem
    have hj := mt mem_order.2 hout
    have hcount := l.nodeCount_eq
    omega
  · exact itemsAt_eq_nil fun hspan => by omega

/-- Constituents stand over spans of the lattice that are not empty. -/
theorem cellAt_final_outside (hout : ¬ (i < j ∧ j ≤ l.sourceLength)) :
    (final l gs).forest.cellAt i j = [] :=
  (pending_foldl (List.prefix_refl _)).cells i j
    fun hmem => hout (mem_order.1 hmem)

/-- What has been completed over a span at the end, with the constituents
`taken` for rules with a single nonterminal. -/
def completed (l : Lattice) (gs : List GrammarView) (i j : Nat)
    (taken : List (Symbol × Nat)) : List Derivation :=
  completionsAt l gs i j (arrivals l (final l gs) i j)
    ++ unaryAt l gs i j taken

/-- The constituents over a span at the end have the derivations that its
items complete and those of rules with a single nonterminal over each of
them. -/
theorem entry?_final (hgs : Roomy gs) (hij : i < j)
    (hj : j ≤ l.sourceLength) :
    ∃ taken, ((final l gs).forest.cellAt i j).Perm taken
      ∧ ∀ lhs, ∃ id, (final l gs).forest.entry? i j lhs
          = Forest.gather id i j lhs none
              (Forest.withLhs lhs (completed l gs i j taken)) := by
  obtain ⟨x, h⟩ := exists_taking gs hij hj
  have hle := Nat.le_of_lt hij
  have hmax : j ≤ l.nodeCount := Proper.le_nodeCount (s := (i, j)) ⟨hij, hj⟩
  obtain ⟨taken, -, hforest, hperm⟩ :=
    forest_next_taken h.fit hgs hle hmax h.cell
  have hcells := h.agrees.cells i j (.refl _)
  refine ⟨taken, by rwa [hcells], fun lhs => ?_⟩
  have hcompleted := records_completedAt gs h.fit hle hmax
  have hrec := hcompleted.trans (records_recordAll hcompleted.sound hle
    (by rwa [hcompleted.max_eq, h.fit.max]) (unaryAt l gs i j taken))
  rw [← hforest] at hrec
  have hentry : (final l gs).forest.entry? i j lhs
      = (x.next l gs (i, j)).forest.entry? i j lhs := by
    by_cases hlisted : ∃ id, (lhs, id)
        ∈ (x.next l gs (i, j)).forest.cellAt i j
    · obtain ⟨id, hid⟩ := hlisted
      rw [hrec.sound.entry?_of_mem hid,
        (fit_final l gs).sound.entry?_of_mem (hcells.symm ▸ hid)]
      exact h.agrees.constituents i j (.refl _) lhs id hid
    · have hno : ∀ id, (lhs, id) ∉ (x.next l gs (i, j)).forest.cellAt i j :=
        fun id hid => hlisted ⟨id, hid⟩
      rw [Forest.entry?_of_not_mem hno,
        Forest.entry?_of_not_mem (by rwa [hcells])]
  obtain ⟨id, hid⟩ := hrec.entry lhs
  refine ⟨id, ?_⟩
  rw [hentry, hid, Forest.entry?_of_not_mem (by simp [h.cell])]
  simp only [h.itemsAt_expanded hij hj]
  rfl

end LatticeParsing.Charting
