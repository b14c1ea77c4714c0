/-
The cells of items that a summary lists.

A summary goes through the spans of every chart by their starts and then by
their stops, and lists those with items. So no cell is listed twice
(`pairwise_cells`). The one span that is left out starts behind the last node,
where no item stands (`ItemChart.NoneBehind`). So every cell that has items is
listed (`mem_cells`), and the counts of the cells add up to those of the charts
(`sum_cells`).
-/
import LatticeParsing.Proofs.Chart.SpanCalls
import LatticeParsing.Report.Summary

namespace LatticeParsing

-- ================================================================ cells

/-- Whether a cell comes before another: by the place of the grammar, and then
by start and by stop. -/
def CellSummary.Before (x y : CellSummary) : Prop :=
  x.grammar < y.grammar
    ∨ x.grammar = y.grammar
      ∧ (x.start < y.start ∨ x.start = y.start ∧ x.stop < y.stop)

instance (x y : CellSummary) : Decidable (x.Before y) :=
  inferInstanceAs (Decidable (_ ∨ _))

-- =============================================================== charts

/-- What counts nothing may be left out of a sum. -/
theorem sum_map_filter {α : Type} {size : α → Nat} {p : α → Bool} {xs : List α}
    (h : ∀ x ∈ xs, p x = false → size x = 0) :
    ((xs.filter p).map size).sum = (xs.map size).sum := by
  induction xs with
  | nil => rfl
  | cons x xs ih =>
      rw [List.forall_mem_cons] at h
      rw [List.map_cons, List.sum_cons, ← ih h.2]
      cases hx : p x with
      | true => rw [List.filter_cons_of_pos hx, List.map_cons, List.sum_cons]
      | false =>
          rw [List.filter_cons_of_neg (Bool.eq_false_iff.1 hx), h.1 hx,
            Nat.zero_add]

namespace ItemChart

variable {c : ItemChart} {n : Nat} {x : CellSummary}

/-- The counts of one cell. -/
def cellSummary (n : Nat) (c : ItemChart) (s : Nat × Nat) : CellSummary where
  grammar := n
  start := s.1
  stop := s.2
  items := (c.itemsAt s.1 s.2).length
  complete := (c.itemsAt s.1 s.2).countP (·.position.hasRules)

/-- The spans of the cells that are listed. -/
def listedSpans (c : ItemChart) : List (Nat × Nat) :=
  (Triangle.spans c.limit).filter fun s =>
    s.1 < c.limit && !(c.itemsAt s.1 s.2).isEmpty

theorem cellSummaries_eq (n : Nat) (c : ItemChart) :
    c.cellSummaries n = c.listedSpans.map (c.cellSummary n) := by
  unfold cellSummaries listedSpans
  induction Triangle.spans c.limit with
  | nil => rfl
  | cons s ss ih =>
      by_cases hs : s.1 < c.limit
      · cases hitems : c.itemsAt s.1 s.2 with
        | nil => simpa [hs, hitems] using ih
        | cons y ys => simpa [hs, hitems, cellSummary] using ih
      · simpa [hs] using ih

/-- No items stand over the empty span behind the last node. -/
def NoneBehind (c : ItemChart) : Prop := c.itemsAt c.limit c.limit = []

/-- Where items stand, if there are none behind the last node. -/
theorem span_of_items (hlast : c.NoneBehind) {i j : Nat}
    (hitems : c.itemsAt i j ≠ []) :
    (i, j) ∈ Triangle.spans c.limit ∧ i < c.limit := by
  have hspan : i ≤ j ∧ j ≤ c.limit := by
    by_contra hout
    exact hitems (itemsAt_eq_nil hout)
  refine ⟨Triangle.mem_spans.2 hspan, ?_⟩
  by_contra hbehind
  -- a span of the table that starts no sooner is the empty one at the limit
  obtain rfl : i = c.limit := by omega
  obtain rfl : j = c.limit := by omega
  exact hitems hlast

/-- A chart lists the cells that hold items. -/
theorem mem_cellSummaries (hlast : c.NoneBehind) :
    x ∈ c.cellSummaries n
      ↔ c.itemsAt x.start x.stop ≠ []
        ∧ x = c.cellSummary n (x.start, x.stop) := by
  rw [cellSummaries_eq, List.mem_map]
  constructor
  · rintro ⟨s, hs, rfl⟩
    have hlisted := (List.mem_filter.1 hs).2
    simp only [Bool.and_eq_true, Bool.not_eq_true',
      List.isEmpty_eq_false_iff] at hlisted
    exact ⟨hlisted.2, rfl⟩
  · rintro ⟨hitems, hx⟩
    obtain ⟨hspan, hstart⟩ := span_of_items hlast hitems
    refine ⟨(x.start, x.stop), List.mem_filter.2 ⟨hspan, ?_⟩, hx.symm⟩
    simp [hstart, hitems]

/-- A chart lists its cells in order. -/
theorem pairwise_cellSummaries (n : Nat) (c : ItemChart) :
    (c.cellSummaries n).Pairwise CellSummary.Before := by
  rw [cellSummaries_eq, List.pairwise_map]
  exact ((Triangle.spans_ascend c.limit).filter _).imp fun hlt =>
    Or.inr ⟨rfl, hlt⟩

/-- The counts of the cells add up to that of the chart. -/
theorem sum_cellSummaries (hlast : c.NoneBehind)
    (hcounted : c.Counted) (n : Nat) :
    ((c.cellSummaries n).map (·.items)).sum = c.itemCount := by
  rw [cellSummaries_eq, List.map_map, hcounted]
  -- a span that is not listed has no items, so it may be left out
  refine sum_map_filter fun s hs hout => ?_
  show (c.itemsAt s.1 s.2).length = 0
  rw [List.length_eq_zero_iff]
  by_contra hitems
  have hstart := (span_of_items hlast hitems).2
  simp [hstart, hitems] at hout

end ItemChart

-- =============================================================== parses

namespace ParseResult

variable {r : ParseResult} {v : Vocabulary}

theorem cells_eq (r : ParseResult) (v : Vocabulary) :
    (r.summary v).cells = r.parse.charts.zipIdx.flatMap
      fun e => e.1.chart.cellSummaries e.2 := rfl

/-- The cells of all charts are listed in order. -/
theorem pairwise_cells (r : ParseResult) (v : Vocabulary) :
    (r.summary v).cells.Pairwise CellSummary.Before := by
  rw [cells_eq, List.pairwise_flatMap]
  constructor
  · exact fun e _ => e.1.chart.pairwise_cellSummaries e.2
  · have hplaces : (r.parse.charts.zipIdx.map Prod.snd).Pairwise (· < ·) := by
      rw [List.zipIdx_map_snd]
      exact List.pairwise_lt_range'
    rw [List.pairwise_map] at hplaces
    refine hplaces.imp fun hlt x hx y hy => ?_
    rw [ItemChart.cellSummaries_eq] at hx hy
    obtain ⟨s, -, rfl⟩ := List.mem_map.1 hx
    obtain ⟨t, -, rfl⟩ := List.mem_map.1 hy
    exact Or.inl hlt

/-- A summary lists the cells of all charts that hold items. -/
theorem mem_cells (hlast : ∀ c ∈ r.parse.charts, c.chart.NoneBehind)
    {x : CellSummary} :
    x ∈ (r.summary v).cells
      ↔ ∃ c, r.parse.charts[x.grammar]? = some c
        ∧ c.chart.itemsAt x.start x.stop ≠ []
        ∧ x = c.chart.cellSummary x.grammar (x.start, x.stop) := by
  rw [cells_eq, List.mem_flatMap]
  constructor
  · rintro ⟨⟨c, n⟩, hc, hx⟩
    have hc := List.mem_zipIdx_iff_getElem?.1 hc
    obtain ⟨hitems, hx⟩ := (ItemChart.mem_cellSummaries
      (hlast c (List.mem_of_getElem? hc))).1 hx
    obtain rfl : x.grammar = n := by rw [hx]; rfl
    exact ⟨c, hc, hitems, hx⟩
  · rintro ⟨c, hc, hx⟩
    refine ⟨(c, x.grammar), List.mem_zipIdx_iff_getElem?.2 hc, ?_⟩
    exact (ItemChart.mem_cellSummaries
      (hlast c (List.mem_of_getElem? hc))).2 hx

/-- The counts of the listed cells add up to those of all charts. -/
theorem sum_cells (hlast : ∀ c ∈ r.parse.charts, c.chart.NoneBehind)
    (hcounted : ∀ c ∈ r.parse.charts, c.chart.Counted) :
    ((r.summary v).cells.map (·.items)).sum
      = ChartedGrammar.totalItems r.parse.charts := by
  have hcell : ∀ e ∈ r.parse.charts.zipIdx,
      ((e.1.chart.cellSummaries e.2).map (·.items)).sum
        = e.1.chart.itemCount := by
    intro e he
    have hc := List.mem_of_getElem? (List.mem_zipIdx_iff_getElem?.1 he)
    exact ItemChart.sum_cellSummaries (hlast e.1 hc) (hcounted e.1 hc) e.2
  calc ((r.summary v).cells.map (·.items)).sum
      = (r.parse.charts.zipIdx.map fun e =>
          ((e.1.chart.cellSummaries e.2).map (·.items)).sum).sum := by
        rw [cells_eq, List.map_flatMap, List.flatMap_def, List.sum_flatten,
          List.map_map]
        rfl
    _ = ((r.parse.charts.zipIdx.map Prod.fst).map
          (·.chart.itemCount)).sum := by
        rw [List.map_map, List.map_congr_left hcell]
        rfl
    _ = ChartedGrammar.totalItems r.parse.charts := by
        rw [List.zipIdx_map_fst, List.sum_eq_foldr]
        rfl

end ParseResult

end LatticeParsing
