/-
The state of a parse as a function of the grammar.

All grammars are treated alike, so the chart of a grammar depends on the
grammar and the forest alone, not on its place among the others. A
`Charting` has a chart for every grammar, listed or not, and a parse walks
through the states of a charting (`toParse_next`, `begin_eq`). Equations
about charts are then about one grammar at a time.

`next_itemsAt` and `records_next` say what taking a span does. It changes
the cell of the span and items that end later in its row, and nothing else,
so what lies within a span is left alone by spans that do not lie within it
(`agreeWithin_foldl`).
-/
import LatticeParsing.Proofs.Chart.Closure
import LatticeParsing.Proofs.Chart.ItemCells
import LatticeParsing.Proofs.Parse.Order

namespace LatticeParsing

/-- A chart for every grammar, and a forest. -/
structure Charting where
  chart : GrammarView → ItemChart
  forest : Forest

namespace Charting

open Parse

variable {l : Lattice} {gs : List GrammarView} {x : Charting}

-- ============================================================== states

/-- The state of a parse with the listed grammars. -/
def toParse (gs : List GrammarView) (x : Charting) : Parse :=
  ⟨gs.map fun g => ⟨g, x.chart g⟩, x.forest⟩

/-- The chart of a grammar at the start of a parse; an empty one where it
cannot be set up. -/
def seededChart (l : Lattice) (g : GrammarView) : ItemChart :=
  match ItemChart.seeded l g with
  | .ok c => c
  | .error _ => .empty l.nodeCount

/-- The start of a parse. -/
def seeded (l : Lattice) : Charting := ⟨seededChart l, .empty l.nodeCount⟩

/-- The charts after expanding a span. -/
def expanded (l : Lattice) (x : Charting) (s : Nat × Nat) (g : GrammarView) :
    ItemChart :=
  ItemChart.expand g l x.forest s.1 s.2 (x.chart g)

/-- The state after a span has been taken. -/
def next (l : Lattice) (gs : List GrammarView) (x : Charting) (s : Nat × Nat) :
    Charting :=
  let forest := (Parse.next l (x.toParse gs) s).forest
  ⟨fun g => ItemChart.start g forest s.1 s.2 (x.expanded l s g), forest⟩

theorem mapCharts_map (change : GrammarView → ItemChart → ItemChart)
    (gs : List GrammarView) (chart : GrammarView → ItemChart) :
    mapCharts change (gs.map fun g => ⟨g, chart g⟩)
      = gs.map fun g => ⟨g, change g (chart g)⟩ := by
  simp [mapCharts]

theorem toParse_next (l : Lattice) (gs : List GrammarView) (x : Charting)
    (s : Nat × Nat) :
    Parse.next l (x.toParse gs) s = (x.next l gs s).toParse gs := by
  obtain ⟨i, j⟩ := s
  simp only [next, next_eq, toParse, mapCharts_map, expanded]

theorem toParse_foldl (l : Lattice) (gs : List GrammarView) (x : Charting)
    (ss : List (Nat × Nat)) :
    ss.foldl (Parse.next l) (x.toParse gs)
      = (ss.foldl (next l gs) x).toParse gs := by
  induction ss generalizing x with
  | nil => rfl
  | cons s ss ih => rw [List.foldl_cons, toParse_next, ih, List.foldl_cons]

theorem seedAll_eq {charts : List ChartedGrammar}
    (h : seedAll l gs = .ok charts) :
    charts = gs.map fun g => ⟨g, seededChart l g⟩ := by
  induction gs generalizing charts with
  | nil =>
      injection h with h
      exact h.symm
  | cons g gs ih =>
      unfold seedAll at h
      cases hc : ItemChart.seeded l g with
      | error e =>
          rw [hc] at h
          cases h
      | ok c =>
          rw [hc] at h
          cases hrest : seedAll l gs with
          | error e =>
              rw [hrest] at h
              cases h
          | ok rest =>
              rw [hrest] at h
              injection h with h
              rw [← h, ih hrest, List.map_cons]
              unfold seededChart
              rw [hc]

/-- A parse starts with the seeded charts. -/
theorem begin_eq {start : Parse} (h : Parse.begin l gs = .ok start) :
    start = (seeded l).toParse gs := by
  unfold Parse.begin at h
  cases hc : seedAll l gs with
  | error e =>
      rw [hc] at h
      cases h
  | ok charts =>
      rw [hc] at h
      injection h with h
      rw [← h, seedAll_eq hc]
      rfl

/-- The end of a parse. -/
def final (l : Lattice) (gs : List GrammarView) : Charting :=
  (order l).foldl (next l gs) (seeded l)

/-- A parse that is set up comes to its end. -/
theorem parse_eq {start : Parse} (h : Parse.begin l gs = .ok start)
    (goal : Symbol) :
    ∃ passes, l.parse gs goal = .ok (Parse.result l goal
      ((seeded l).toParse gs) ((final l gs).toParse gs) passes) := by
  refine ⟨(takeWidths l (widths l) ((seeded l).toParse gs)).2, ?_⟩
  rw [Parse.parse_eq, h, begin_eq h]
  unfold final
  rw [← toParse_foldl]
  rfl

-- ======================================================= well-formedness

/-- The tables have the size of the lattice, items stand in their cells, and
the forest is sound. -/
structure Fit (l : Lattice) (x : Charting) : Prop where
  placed : ∀ g, (x.chart g).Placed
  limit : ∀ g, (x.chart g).limit = l.nodeCount
  sound : x.forest.Sound
  max : x.forest.cells.max = l.nodeCount

/-- A seeded chart is the empty one with some items added. -/
theorem seededChart_eq (l : Lattice) (g : GrammarView) :
    ∃ xs, seededChart l g = (ItemChart.empty l.nodeCount).addAll xs
      ∧ ∀ x ∈ xs, x.start = x.stop ∧ x.antecedents = [] := by
  have hseeds : ∀ (js : List Nat) (xs : List Item),
      ItemChart.seeds l g js = .ok xs →
        ∀ x ∈ xs, x.start = x.stop ∧ x.antecedents = [] := by
    intro js
    induction js with
    | nil =>
        intro xs h x hx
        injection h with h
        subst h
        cases hx
    | cons j js ih =>
        intro xs h x hx
        unfold ItemChart.seeds at h
        split at h
        · exact ih xs h x hx
        · split at h
          · split at h
            · cases h
            · cases hrest : ItemChart.seeds l g js with
              | error e =>
                  rw [hrest] at h
                  cases h
              | ok rest =>
                  rw [hrest] at h
                  injection h with h
                  subst h
                  rcases List.mem_cons.1 hx with rfl | hx
                  · exact ⟨rfl, rfl⟩
                  · exact ih rest hrest x hx
          · exact ih xs h x hx
  unfold seededChart ItemChart.seeded
  cases hxs : ItemChart.seeds l g (List.range l.nodeCount) with
  | error e => exact ⟨[], rfl, by simp⟩
  | ok xs => exact ⟨xs, rfl, hseeds _ _ hxs⟩

theorem fit_seeded (l : Lattice) : (seeded l).Fit l where
  placed := by
    intro g
    obtain ⟨xs, hxs, -⟩ := seededChart_eq l g
    show (seededChart l g).Placed
    rw [hxs]
    exact (ItemChart.placed_empty _).addAll xs
  limit := by
    intro g
    obtain ⟨xs, hxs, -⟩ := seededChart_eq l g
    show (seededChart l g).limit = _
    rw [hxs, ItemChart.limit_addAll]
    rfl
  sound := Forest.sound_empty _
  max := rfl

/-- Seeding puts items over empty spans only. -/
theorem itemsAt_seeded {g : GrammarView} {i j : Nat} (hij : i ≠ j) :
    ((seeded l).chart g).itemsAt i j = [] := by
  obtain ⟨xs, hxs, hempty⟩ := seededChart_eq l g
  show (seededChart l g).itemsAt i j = []
  rw [hxs, ItemChart.itemsAt_addAll_of_forall_ne, ItemChart.itemsAt_empty]
  intro x hx hspan
  obtain ⟨hstart, hstop⟩ := hspan
  exact hij (hstart.symm.trans ((hempty x hx).1.trans hstop))

-- ========================================================= completions

/-- The listed grammars that allow rules over a span. -/
def allowed (l : Lattice) (gs : List GrammarView) (i j : Nat) :
    List GrammarView :=
  match l.distance i j with
  | none => []
  | some d => gs.filter fun g => g.allows i j d

theorem mem_allowed {g : GrammarView} {i j : Nat} :
    g ∈ allowed l gs i j
      ↔ g ∈ gs ∧ ∃ d, l.distance i j = some d ∧ g.allows i j d = true := by
  unfold allowed
  cases l.distance i j with
  | none => simp
  | some d => simp [List.mem_filter]

theorem allowing_map (chart : GrammarView → ItemChart) (i j : Nat) :
    allowing l (gs.map fun g => ⟨g, chart g⟩) i j
      = (allowed l gs i j).map fun g => ⟨g, chart g⟩ := by
  unfold allowing allowed
  cases l.distance i j with
  | none => rfl
  | some d =>
      show List.filter _ (List.map _ gs) = List.map _ (List.filter _ gs)
      rw [List.filter_map]
      rfl

/-- The rules that end at given items of each grammar. -/
def completionsAt (l : Lattice) (gs : List GrammarView) (i j : Nat)
    (items : GrammarView → List Item) : List Completion :=
  (allowed l gs i j).flatMap fun g => (items g).flatMap fun x =>
    x.position.rules.map fun r => ⟨r, x.antecedents, x.path.cost⟩

theorem completions_map (chart : GrammarView → ItemChart) (i j : Nat) :
    completions l (gs.map fun g => ⟨g, chart g⟩) i j
      = completionsAt l gs i j fun g => (chart g).itemsAt i j := by
  unfold completions completionsAt
  rw [allowing_map, List.flatMap_map]

/-- The rules with a single nonterminal that apply to constituents. -/
def unaryAt (l : Lattice) (gs : List GrammarView) (i j : Nat)
    (es : List (Symbol × Nat)) : List Completion :=
  es.flatMap fun (lhs, id) => (allowed l gs i j).flatMap fun g =>
    match g.root?.bind fun root => g.follow? root lhs with
    | none => []
    | some p =>
      (p.rules.filter (·.rule.isUnary)).map fun r => ⟨r, [id], .zero⟩

theorem unaryOver_map (chart : GrammarView → ItemChart) (i j : Nat)
    (es : List (Symbol × Nat)) :
    unaryOver l (gs.map fun g => ⟨g, chart g⟩) i j es
      = unaryAt l gs i j es := by
  unfold unaryOver unaryAt unaryCompletions
  rw [allowing_map]
  exact List.flatMap_congr fun _ _ => List.flatMap_map ..

-- ============================================================== a step

/-- The listed grammars with their charts after expanding a span. -/
def expandedCharts (l : Lattice) (gs : List GrammarView) (x : Charting)
    (s : Nat × Nat) : List ChartedGrammar :=
  gs.map fun g => ⟨g, x.expanded l s g⟩

/-- What the items over a span complete when it is taken. -/
def completedAt (l : Lattice) (gs : List GrammarView) (x : Charting)
    (i j : Nat) : Recorded :=
  recordAll i j x.forest
    (completionsAt l gs i j fun g => (x.expanded l (i, j) g).itemsAt i j)

theorem forest_next (l : Lattice) (gs : List GrammarView) (x : Charting)
    (i j : Nat) :
    (x.next l gs (i, j)).forest
      = (closeUnary l (expandedCharts l gs x (i, j)) i j
          (completedAt l gs x i j).forest
          (completedAt l gs x i j).made).forest := by
  show (Parse.next l (x.toParse gs) (i, j)).forest = _
  unfold completedAt
  rw [← completions_map, next_eq]
  simp only [toParse, mapCharts_map]
  rfl

/-- Taking a span records what its items complete, and then rules with a
single nonterminal for constituents that the closure takes. -/
theorem forest_next_eq (l : Lattice) (gs : List GrammarView) (x : Charting)
    (i j : Nat) :
    ∃ taken, (x.next l gs (i, j)).forest
      = (recordAll i j (completedAt l gs x i j).forest
          (unaryAt l gs i j taken)).forest := by
  refine ⟨takenFrom l (expandedCharts l gs x (i, j)) i j
    ((completedAt l gs x i j).made.length
      + ruleBound (expandedCharts l gs x (i, j)) + 1)
    (completedAt l gs x i j).made (completedAt l gs x i j).forest, ?_⟩
  rw [forest_next, ← unaryOver_map (fun g => x.expanded l (i, j) g)]
  exact forest_closeFrom ..

/-- The rules that a nonterminal alone leads to have no more left-hand sides
than the grammars count rules. -/
def Roomy (gs : List GrammarView) : Prop :=
  ∃ lhss : List Symbol,
    (∀ chart : GrammarView → ItemChart,
      lhss.length ≤ ruleBound (gs.map fun g => ⟨g, chart g⟩))
    ∧ ∀ g ∈ gs, ∀ s p, (g.root?.bind fun root => g.follow? root s) = some p →
        ∀ r ∈ p.rules, r.rule.lhs ∈ lhss

theorem Roomy.mem_of_unaryCompletions (hgs : Roomy gs) :
    ∃ lhss : List Symbol,
      (∀ chart : GrammarView → ItemChart,
        lhss.length ≤ ruleBound (gs.map fun g => ⟨g, chart g⟩))
      ∧ ∀ (chart : GrammarView → ItemChart) (i j : Nat) (lhs : Symbol)
          (id : Nat),
          ∀ d ∈ unaryCompletions l (gs.map fun g => ⟨g, chart g⟩) i j lhs id,
            d.rule.rule.lhs ∈ lhss := by
  obtain ⟨lhss, hlen, hlhss⟩ := hgs
  refine ⟨lhss, hlen, fun chart i j lhs id d hd => ?_⟩
  unfold unaryCompletions at hd
  rw [allowing_map, List.flatMap_map] at hd
  obtain ⟨g, hg, hd⟩ := List.mem_flatMap.1 hd
  split at hd
  case h_1 => cases hd
  case h_2 p hp =>
    obtain ⟨r, hr, rfl⟩ := List.mem_map.1 hd
    exact hlhss g (mem_allowed.1 hg).1 lhs p hp r (List.mem_filter.1 hr).1

theorem records_completedAt (gs : List GrammarView) (hx : x.Fit l) {i j : Nat}
    (hij : i ≤ j) (hj : j ≤ l.nodeCount) :
    Forest.Records i j
      (completionsAt l gs i j fun g => (x.expanded l (i, j) g).itemsAt i j)
      (completedAt l gs x i j).made x.forest (completedAt l gs x i j).forest :=
  records_recordAll hx.sound hij (by rwa [hx.max]) _

/-- Where the cell of the span is empty beforehand, the closure takes every
constituent that the cell has in the end. -/
theorem forest_next_taken (hx : x.Fit l) (hgs : Roomy gs) {i j : Nat}
    (hij : i ≤ j) (hj : j ≤ l.nodeCount) (hempty : x.forest.cellAt i j = []) :
    ∃ taken, Drains l (expandedCharts l gs x (i, j)) i j
          (completedAt l gs x i j).made ⟨(completedAt l gs x i j).forest, [], 0⟩
          taken (closeUnary l (expandedCharts l gs x (i, j)) i j
            (completedAt l gs x i j).forest (completedAt l gs x i j).made)
      ∧ (x.next l gs (i, j)).forest
        = (recordAll i j (completedAt l gs x i j).forest
            (unaryAt l gs i j taken)).forest
      ∧ ((x.next l gs (i, j)).forest.cellAt i j).Perm taken := by
  obtain ⟨lhss, hlen, hlhss⟩ := hgs.mem_of_unaryCompletions (l := l)
  have hrec := records_completedAt gs hx hij hj
  obtain ⟨es, hmade, hperm, -⟩ := hrec.cell
  rw [hempty, List.nil_append] at hperm
  obtain ⟨taken, hdrains, hforest, htaken⟩ := closeUnary_taken l
    (expandedCharts l gs x (i, j)) hij hrec.sound
    (by rwa [hrec.max_eq, hx.max]) hmade hperm (hlen _) (hlhss _ i j)
  refine ⟨taken, hdrains, ?_, ?_⟩
  · rw [forest_next, hforest]
    unfold expandedCharts
    rw [unaryOver_map]
  · rw [forest_next]
    exact htaken

theorem records_next (gs : List GrammarView) (hx : x.Fit l) {i j : Nat}
    (hij : i ≤ j) (hj : j ≤ l.nodeCount) :
    ∃ ds made, Forest.Records i j ds made x.forest
      (x.next l gs (i, j)).forest := by
  obtain ⟨taken, htaken⟩ := forest_next_eq l gs x i j
  have hrec := records_completedAt gs hx hij hj
  rw [htaken]
  exact ⟨_, _, hrec.trans (records_recordAll hrec.sound hij
    (by rwa [hrec.max_eq, hx.max]) _)⟩

theorem placed_expanded (hx : x.Fit l) (s : Nat × Nat) (g : GrammarView) :
    (x.expanded l s g).Placed :=
  (hx.placed g).expand g l _ _ _

theorem limit_expanded (hx : x.Fit l) (s : Nat × Nat) (g : GrammarView) :
    (x.expanded l s g).limit = l.nodeCount := by
  unfold expanded
  rw [ItemChart.limit_expand, hx.limit]

theorem Fit.next (hx : x.Fit l) {s : Nat × Nat} (hs : s.1 ≤ s.2)
    (hmax : s.2 ≤ l.nodeCount) : (x.next l gs s).Fit l := by
  obtain ⟨ds, made, hrec⟩ := records_next gs hx hs hmax
  refine ⟨fun g => (placed_expanded hx s g).start g _ _ _, fun g => ?_,
    hrec.sound, hrec.max_eq.trans hx.max⟩
  show (ItemChart.start g _ _ _ _).limit = _
  rw [ItemChart.limit_start, limit_expanded hx]

/-- Taking a span changes no items but those of its cell and of later ends
in its row. -/
theorem next_itemsAt (hx : x.Fit l) {s : Nat × Nat} {a b : Nat}
    (hne : ¬ (a = s.1 ∧ s.2 ≤ b)) (g : GrammarView) :
    ((x.next l gs s).chart g).itemsAt a b = (x.chart g).itemsAt a b := by
  show (ItemChart.start g _ _ _ _).itemsAt a b = _
  rw [ItemChart.itemsAt_start_of_ne g (placed_expanded hx s g) (by omega)]
  exact ItemChart.itemsAt_expand_of_not_reached g (hx.placed g) hne

-- =========================================================== stability

/-- Two states have the same items and constituents within a span. -/
structure AgreeWithin (s : Nat × Nat) (x y : Charting) : Prop where
  items : ∀ g a b, Within (a, b) s →
    (y.chart g).itemsAt a b = (x.chart g).itemsAt a b
  cells : ∀ a b, Within (a, b) s → y.forest.cellAt a b = x.forest.cellAt a b
  constituents : ∀ a b, Within (a, b) s → ∀ lhs id,
    (lhs, id) ∈ x.forest.cellAt a b →
      y.forest.constituents[id]? = x.forest.constituents[id]?

theorem AgreeWithin.refl (s : Nat × Nat) (x : Charting) : AgreeWithin s x x :=
  ⟨fun _ _ _ _ => rfl, fun _ _ _ => rfl, fun _ _ _ _ _ _ => rfl⟩

theorem AgreeWithin.trans {s : Nat × Nat} {x y z : Charting}
    (h : AgreeWithin s x y) (h' : AgreeWithin s y z) : AgreeWithin s x z where
  items := fun g a b hab => (h'.items g a b hab).trans (h.items g a b hab)
  cells := fun a b hab => (h'.cells a b hab).trans (h.cells a b hab)
  constituents := fun a b hab lhs id hmem =>
    (h'.constituents a b hab lhs id ((h.cells a b hab).symm ▸ hmem)).trans
      (h.constituents a b hab lhs id hmem)

/-- A span that does not lie within another one leaves that one alone. -/
theorem agreeWithin_next (gs : List GrammarView) (hx : x.Fit l)
    {s t : Nat × Nat} (ht : t.1 ≤ t.2) (hmax : t.2 ≤ l.nodeCount)
    (hst : ¬ Within t s) :
    AgreeWithin s x (x.next l gs t) := by
  obtain ⟨ds, made, hrec⟩ := records_next gs hx ht hmax
  have hne : ∀ a b, Within (a, b) s → ¬ (a = t.1 ∧ t.2 ≤ b) := by
    intro a b hab heq
    obtain ⟨ha, hb⟩ := hab
    obtain ⟨rfl, htb⟩ := heq
    exact hst ⟨ha, Nat.le_trans htb hb⟩
  have hne' : ∀ a b, Within (a, b) s → ¬ (a = t.1 ∧ b = t.2) :=
    fun a b hab heq => hne a b hab ⟨heq.1, Nat.le_of_eq heq.2.symm⟩
  exact {
    items := fun g a b hab => next_itemsAt hx (hne a b hab) g
    cells := fun a b hab => hrec.cellAt_of_ne a b (hne' a b hab)
    constituents := fun a b hab lhs id hmem =>
      hrec.constituent_of_ne a b (hne' a b hab) lhs id hmem }

/-- Spans of the lattice that are not empty. -/
def Proper (l : Lattice) (s : Nat × Nat) : Prop :=
  s.1 < s.2 ∧ s.2 ≤ l.sourceLength

theorem Proper.le_nodeCount {s : Nat × Nat} (hs : Proper l s) :
    s.2 ≤ l.nodeCount := by
  rw [l.nodeCount_eq]
  exact Nat.le_succ_of_le hs.2

theorem Fit.foldl (hx : x.Fit l) {ss : List (Nat × Nat)}
    (hss : ∀ s ∈ ss, Proper l s) : (ss.foldl (Charting.next l gs) x).Fit l := by
  induction ss generalizing x with
  | nil => exact hx
  | cons s ss ih =>
      have hs := hss s (List.mem_cons_self ..)
      exact ih (hx.next (Nat.le_of_lt hs.1) hs.le_nodeCount)
        fun t ht => hss t (List.mem_cons_of_mem _ ht)

/-- Spans that do not lie within another one leave that one alone. -/
theorem agreeWithin_foldl (hx : x.Fit l) {s : Nat × Nat}
    {ts : List (Nat × Nat)} (hts : ∀ t ∈ ts, Proper l t)
    (hst : ∀ t ∈ ts, ¬ Within t s) :
    AgreeWithin s x (ts.foldl (Charting.next l gs) x) := by
  induction ts generalizing x with
  | nil => exact .refl s x
  | cons t ts ih =>
      have ht := hts t (List.mem_cons_self ..)
      have hle := Nat.le_of_lt ht.1
      have hstep := agreeWithin_next gs hx hle ht.le_nodeCount
        (hst t (List.mem_cons_self ..))
      refine hstep.trans ?_
      exact ih (hx.next hle ht.le_nodeCount)
        (fun u hu => hts u (List.mem_cons_of_mem _ hu))
        fun u hu => hst u (List.mem_cons_of_mem _ hu)

theorem proper_of_mem_order {s : Nat × Nat} (hs : s ∈ order l) : Proper l s :=
  mem_order.1 hs

theorem fit_final (l : Lattice) (gs : List GrammarView) : (final l gs).Fit l :=
  (fit_seeded l).foldl fun _ hs => proper_of_mem_order hs

end Charting

end LatticeParsing
