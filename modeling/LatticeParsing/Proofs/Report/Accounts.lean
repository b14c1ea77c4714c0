/-
A parse accounts for all its items.

What a parse tells of its work is added up along the way, and what a summary
tells is read off the charts at the end. Both come to the same: the passes
report what is in the charts and the forest (`Parse.totals_eq`,
`Parse.passes_eq`), and the cells that a summary lists are all that hold items
(`ParseResult.mem_cells`, `ParseResult.sum_cells`). All this is said in one
place (`Accounts`).
-/
import LatticeParsing.Proofs.Parse.Accounts
import LatticeParsing.Proofs.Parse.FinalCells
import LatticeParsing.Proofs.Report.Cells
import LatticeParsing.Proofs.Report.Summaries

namespace LatticeParsing

variable {E : PatternEngine}

-- ============================================================= accounts

/-- The number of the items in all cells of a chart. -/
def ItemChart.stored (c : ItemChart) : Nat :=
  ((Triangle.spans c.limit).map fun s => (c.itemsAt s.1 s.2).length).sum

/-- Whether what is told of a parse over a lattice, by its result and by its
summary, accounts for all there is in its charts and its forest. -/
structure Accounts (l : Lattice) (r : ParseResult) (s : Summary) : Prop where
  /-- There is one pass for every width, and the widths ascend. -/
  widths : r.passes.map (·.width) = List.range' 1 l.sourceLength
  /-- Every item was seeded or is reported by a pass. -/
  items : r.seeded + (r.passes.map (·.items)).sum
    = ChartedGrammar.totalItems r.parse.charts
  /-- The charts count the items in their cells. -/
  stored : (r.parse.charts.map (·.chart.stored)).sum
    = ChartedGrammar.totalItems r.parse.charts
  /-- The summary tells the same numbers. -/
  summary : s.items = ChartedGrammar.totalItems r.parse.charts
    ∧ s.seeded = r.seeded ∧ s.passes = r.passes
  /-- The cells of the summary hold all items. -/
  cells : (s.cells.map (·.items)).sum
    = ChartedGrammar.totalItems r.parse.charts
  /-- They are listed in order, so none is listed twice. -/
  order : s.cells.Pairwise CellSummary.Before
  /-- They are the cells of all charts that hold items. -/
  listed : ∀ x : CellSummary, x ∈ s.cells
    ↔ ∃ c, r.parse.charts[x.grammar]? = some c
      ∧ c.chart.itemsAt x.start x.stop ≠ []
      ∧ x = c.chart.cellSummary x.grammar (x.start, x.stop)
  /-- A pass reports the constituents of its width and their derivations. -/
  passes : ∀ n ∈ r.passes,
    n.constituents = r.parse.forest.madeAt (· == n.width)
      ∧ n.derivations = r.parse.forest.derivedAt (· == n.width)
      ∧ n.unaryConstituents ≤ n.constituents
  /-- The counts of the whole parse are those of the charts and the forest. -/
  counts : r.counts.seeded + r.counts.items
        = ChartedGrammar.totalItems r.parse.charts
      ∧ r.counts.constituents = r.parse.forest.constituents.size
      ∧ r.counts.derivations = r.parse.forest.derivationCount
      ∧ r.counts.passes = r.passes

namespace Charting

variable {l : Lattice} {gs : List (GrammarContents E)} {v : Vocabulary}

/-- No chart of a parse has items behind the last node of the lattice. -/
theorem noneBehind_of_mem_charts {r : ParseResult}
    (hstate : r.parse = (final l (gs.map (·.view v))).toParse
      (gs.map (·.view v))) :
    ∀ c ∈ r.parse.charts, c.chart.NoneBehind := by
  intro c hc
  rw [hstate] at hc
  obtain ⟨view, hview, rfl⟩ := List.mem_map.1 hc
  obtain ⟨g, -, rfl⟩ := List.mem_map.1 hview
  unfold ItemChart.NoneBehind
  rw [(fit_final l _).limit, itemsAt_final_self, itemsAt_seeded_self]
  exact if_neg (Nat.lt_irrefl _)

theorem counted_of_mem_charts {r : ParseResult} {gs : List GrammarView}
    (hstate : r.parse = (final l gs).toParse gs) :
    ∀ c ∈ r.parse.charts, c.chart.Counted := by
  intro c hc
  rw [hstate] at hc
  obtain ⟨g, -, rfl⟩ := List.mem_map.1 hc
  exact counted_final l gs g

end Charting

/-- A parse with finished grammars, and a summary of it, account for all that
there is in its charts and its forest at the end. -/
theorem parsing_accounts_for_all_items (l : Lattice)
    (gs : List (GrammarContents E)) (v : Vocabulary) (goal : String) :
    ∃ r s, l.parse (gs.map (·.view (v.intern goal).1)) (v.intern goal).2
        = .ok r
      ∧ Grammar.summarize v (gs.map (·.grammar)) l goal = .ok s
      ∧ Accounts l r s := by
  obtain ⟨r, hparse, hstate, -, hsummary⟩ :=
    Charting.exists_summary l gs v goal
  obtain ⟨hitems, hmade, hderived⟩ := Parse.totals_eq hparse
  have hcounted := Charting.counted_of_mem_charts hstate
  have hlast := Charting.noneBehind_of_mem_charts hstate
  have hstored : r.parse.charts.map (·.chart.stored)
      = r.parse.charts.map (·.chart.itemCount) :=
    List.map_congr_left fun c hc => (hcounted c hc).symm
  have hwidths := congrArg (List.map Prod.fst) (Parse.passes_eq hparse)
  simp only [List.map_map] at hwidths
  refine ⟨r, r.summary (v.intern goal).1, hparse, hsummary, ?_⟩
  exact {
    widths := hwidths.trans (List.map_id _)
    items := hitems.symm
    stored := by
      rw [hstored, List.sum_eq_foldr]
      rfl
    summary := ⟨rfl, rfl, rfl⟩
    cells := ParseResult.sum_cells hlast hcounted
    order := r.pairwise_cells _
    listed := fun x => ParseResult.mem_cells hlast
    passes := fun n hn => Parse.pass_eq hparse hn
    counts := by
      rw [Parse.counts_eq r]
      exact ⟨hitems.symm, hmade.symm, hderived.symm, rfl⟩ }

end LatticeParsing
