/-
The order of the steps of a parse.

Taking a span is a sequence of steps: each chart is expanded, completions
are recorded one by one, and each chart is started (`spanSteps`). The log of
a parse has the steps of all spans, in order, and running them is the parse
(`foldl_log`).

A step changes items of its row that end at the end of its span or later,
and constituents of its span; everything else it leaves alone (`itemsOf_run`,
`sameCell_run`). In the log a step is never followed by a step of another
span within its own (`log_pairwise`). So what a span reads is left alone
from the moment in which it is first expanded.
-/
import Mathlib.Data.List.Count
import LatticeParsing.Proofs.Parse.Setup

namespace LatticeParsing

namespace Parse

-- =============================================================== steps

/-- A step of a parse, with its span. -/
inductive Action where
  /-- The chart with this place among all charts is expanded. -/
  | expand (chart i j : Nat)
  /-- A completion is recorded. -/
  | record (i j : Nat) (d : Completion)
  /-- The chart with this place starts rules. -/
  | start (chart i j : Nat)
  deriving DecidableEq

namespace Action

/-- The span of a step. -/
def span : Action → Nat × Nat
  | expand _ i j => (i, j)
  | record i j _ => (i, j)
  | start _ i j => (i, j)

/-- The state after a step. -/
def run (l : Lattice) (p : Parse) : Action → Parse
  | expand k i j => { p with
      charts := p.charts.modify k fun c =>
        { c with chart := c.chart.expand c.grammar l p.forest i j } }
  | record i j d => { p with
      forest := (Recorded.add i j ⟨p.forest, [], 0⟩ d).forest }
  | start k i j => { p with
      charts := p.charts.modify k fun c =>
        { c with chart := c.chart.start c.grammar p.forest i j } }

end Action

variable {l : Lattice} {p : Parse} {a : Action} {i j k x y : Nat}

/-- The completions over a span in the order in which they are recorded: of
the items, and then of the closure. -/
def recordedOver (l : Lattice) (p : Parse) (i j : Nat) : List Completion :=
  let expanded := mapCharts (fun g c => c.expand g l p.forest i j) p.charts
  let ds := completions l expanded i j
  let completed := recordAll i j p.forest ds
  ds ++ unaryOver l expanded i j
    (takenFrom l expanded i j (completed.made.length + ruleBound expanded + 1)
      completed.made completed.forest)

/-- The steps that take a span. -/
def spanSteps (l : Lattice) (p : Parse) (s : Nat × Nat) : List Action :=
  (List.range p.charts.length).map (.expand · s.1 s.2)
    ++ (recordedOver l p s.1 s.2).map (.record s.1 s.2)
    ++ (List.range p.charts.length).map (.start · s.1 s.2)

/-- The steps that take several spans, one after the other. -/
def steps (l : Lattice) : List (Nat × Nat) → Parse → List Action
  | [], _ => []
  | s :: ss, p => spanSteps l p s ++ steps l ss (next l p s)

/-- The steps of a parse. -/
def log (l : Lattice) (start : Parse) : List Action := steps l (order l) start

/-- The state after the first `n` steps of a parse. -/
def stateAfter (l : Lattice) (start : Parse) (n : Nat) : Parse :=
  ((log l start).take n).foldl (Action.run l) start

-- ============================================================== running

/-- Changing the elements of a list one by one changes all of them. -/
theorem foldl_modify_range {α : Type} (f : α → α) (xs : List α) :
    (List.range xs.length).foldl (fun ys k => ys.modify k f) xs = xs.map f := by
  -- after `n` changes the first `n` elements have been changed
  have key : ∀ n m : Nat,
      ((List.range n).foldl (fun ys k => ys.modify k f) xs)[m]?
        = xs[m]?.map fun x => if m < n then f x else x := by
    intro n m
    induction n with
    | zero => simp
    | succ n ih =>
        rw [List.range_succ, List.foldl_append, List.foldl_cons,
          List.foldl_nil, List.getElem?_modify, ih]
        cases xs[m]? with
        | none => rfl
        | some x =>
            have hcases : n = m ∨ m < n ∨ ¬ m < n + 1 := by omega
            rcases hcases with rfl | hlt | hge
            · simp
            · have hne : n ≠ m := by omega
              have hsucc : m < n + 1 := by omega
              simp [hlt, hne, hsucc]
            · have hne : n ≠ m := by omega
              have hlt : ¬ m < n := by omega
              simp [hlt, hne, hge]
  refine List.ext_getElem? fun m => ?_
  rw [key, List.getElem?_map]
  cases hm : xs[m]? with
  | none => rfl
  | some x =>
      have hlt := (List.getElem?_eq_some_iff.1 hm).1
      simp [hlt]

/-- Steps that change the charts one by one change all of them. -/
theorem foldl_charts {act : Nat → Action}
    {change : GrammarView → ItemChart → ItemChart} (p : Parse)
    (hact : ∀ cs k, Action.run l ⟨cs, p.forest⟩ (act k)
      = ⟨cs.modify k fun c => { c with chart := change c.grammar c.chart },
          p.forest⟩) :
    ((List.range p.charts.length).map act).foldl (Action.run l) p
      = { p with charts := mapCharts change p.charts } := by
  have key : ∀ (ks : List Nat) (cs : List ChartedGrammar),
      (ks.map act).foldl (Action.run l) ⟨cs, p.forest⟩
        = ⟨ks.foldl (fun cs k => cs.modify k fun c =>
            { c with chart := change c.grammar c.chart }) cs, p.forest⟩ := by
    intro ks
    induction ks with
    | nil => intro cs; rfl
    | cons k ks ih =>
        intro cs
        rw [List.map_cons, List.foldl_cons, hact, ih, List.foldl_cons]
  have hall := key (List.range p.charts.length) p.charts
  rw [foldl_modify_range] at hall
  exact hall

/-- Recording completions one by one records all of them. -/
theorem foldl_record (l : Lattice) (i j : Nat) (p : Parse)
    (ds : List Completion) :
    (ds.map (Action.record i j)).foldl (Action.run l) p
      = { p with forest := (recordAll i j p.forest ds).forest } := by
  induction ds generalizing p with
  | nil => rfl
  | cons d ds ih =>
      show _ = { p with forest := (recordAll i j p.forest ([d] ++ ds)).forest }
      rw [List.map_cons, List.foldl_cons, ih, recordAll_append]
      rfl

/-- The steps that take a span take it. -/
theorem foldl_spanSteps (l : Lattice) (p : Parse) (s : Nat × Nat) :
    (spanSteps l p s).foldl (Action.run l) p = next l p s := by
  obtain ⟨i, j⟩ := s
  let expanded := mapCharts (fun g c => c.expand g l p.forest i j) p.charts
  let closed := (closeUnary l expanded i j
    (recordAll i j p.forest (completions l expanded i j)).forest
    (recordAll i j p.forest (completions l expanded i j)).made).forest
  have hexpand : ((List.range p.charts.length).map (Action.expand · i j)).foldl
      (Action.run l) p = ⟨expanded, p.forest⟩ := foldl_charts p fun _ _ => rfl
  have hrecord : (recordAll i j p.forest (recordedOver l p i j)).forest
      = closed := by
    unfold recordedOver closed closeUnary
    rw [recordAll_append, forest_closeFrom]
  have hlength : p.charts.length = expanded.length := by
    simp [expanded, mapCharts]
  unfold spanSteps
  rw [List.foldl_append, List.foldl_append, hexpand, foldl_record, hrecord,
    hlength, next_eq]
  exact foldl_charts ⟨expanded, closed⟩ fun _ _ => rfl

theorem foldl_steps (l : Lattice) (ss : List (Nat × Nat)) (p : Parse) :
    (steps l ss p).foldl (Action.run l) p = ss.foldl (next l) p := by
  induction ss generalizing p with
  | nil => rfl
  | cons s ss ih =>
      unfold steps
      rw [List.foldl_append, foldl_spanSteps, ih]
      rfl

theorem steps_append (l : Lattice) (ss ts : List (Nat × Nat)) (p : Parse) :
    steps l (ss ++ ts) p
      = steps l ss p ++ steps l ts (ss.foldl (next l) p) := by
  induction ss generalizing p with
  | nil => rfl
  | cons s ss ih =>
      show spanSteps l p s ++ steps l (ss ++ ts) (next l p s) = _
      rw [ih, ← List.append_assoc]
      rfl

-- ============================================================= the log

/-- When the steps of some spans that the order begins with have been made,
these spans have been taken. -/
theorem stateAfter_spans (start : Parse) {ss ts : List (Nat × Nat)}
    (h : order l = ss ++ ts) :
    stateAfter l start (steps l ss start).length = ss.foldl (next l) start := by
  unfold stateAfter log
  rw [h, steps_append, List.take_left, foldl_steps]

/-- All steps that take a span have that span. -/
theorem span_of_mem_spanSteps {s : Nat × Nat} (ha : a ∈ spanSteps l p s) :
    a.span = s := by
  unfold spanSteps at ha
  simp only [List.mem_append, List.mem_map] at ha
  rcases ha with (⟨k, -, rfl⟩ | ⟨d, -, rfl⟩) | ⟨k, -, rfl⟩ <;> rfl

theorem span_mem_of_mem_steps {ss : List (Nat × Nat)}
    (ha : a ∈ steps l ss p) : a.span ∈ ss := by
  induction ss generalizing p with
  | nil => cases ha
  | cons s ss ih =>
      rcases List.mem_append.1 ha with ha | ha
      · exact span_of_mem_spanSteps ha ▸ List.mem_cons_self ..
      · exact List.mem_cons_of_mem _ (ih ha)

/-- A step is not followed by one of another span within its own. -/
theorem steps_pairwise {ss : List (Nat × Nat)}
    (hss : ss.Pairwise fun s t => ¬ Within t s) (p : Parse) :
    (steps l ss p).Pairwise fun a b =>
      b.span = a.span ∨ ¬ Within b.span a.span := by
  induction ss generalizing p with
  | nil => exact .nil
  | cons s ss ih =>
      obtain ⟨hs, hss⟩ := List.pairwise_cons.1 hss
      unfold steps
      rw [List.pairwise_append]
      refine ⟨?_, ih hss _, fun a ha b hb => Or.inr ?_⟩
      · refine List.pairwise_of_forall_mem_list fun a ha b hb => Or.inl ?_
        rw [span_of_mem_spanSteps ha, span_of_mem_spanSteps hb]
      · rw [span_of_mem_spanSteps ha]
        exact hs _ (span_mem_of_mem_steps hb)

/-- Taking a span expands every chart once over it. -/
theorem count_expand_spanSteps (l : Lattice) (p : Parse) (s : Nat × Nat)
    (k i j : Nat) :
    (spanSteps l p s).count (.expand k i j)
      = if k < p.charts.length ∧ s = (i, j) then 1 else 0 := by
  obtain ⟨a, b⟩ := s
  have hrecord : Action.expand k i j
      ∉ (recordedOver l p a b).map (.record a b) := by
    intro hmem
    obtain ⟨d, -, hd⟩ := List.mem_map.1 hmem
    cases hd
  have hstart : Action.expand k i j
      ∉ (List.range p.charts.length).map (.start · a b) := by
    intro hmem
    obtain ⟨m, -, hm⟩ := List.mem_map.1 hmem
    cases hm
  unfold spanSteps
  rw [List.count_append, List.count_append,
    List.count_eq_zero_of_not_mem hrecord,
    List.count_eq_zero_of_not_mem hstart, Nat.add_zero]
  by_cases hcond : k < p.charts.length ∧ (a, b) = (i, j)
  · obtain ⟨hk, hspan⟩ := hcond
    injection hspan with ha hb
    subst ha hb
    have hinj : Function.Injective (Action.expand · a b) := by
      intro m n hmn
      injection hmn
    rw [if_pos ⟨hk, rfl⟩]
    show ((List.range p.charts.length).map _).count
      ((Action.expand · a b) k) = 1
    rw [List.count_map_of_injective _ _ hinj]
    exact List.count_eq_one_of_mem List.nodup_range (List.mem_range.2 hk)
  · rw [if_neg hcond, List.count_eq_zero]
    intro hmem
    obtain ⟨m, hm, heq⟩ := List.mem_map.1 hmem
    injection heq with hmk ha hb
    subst hmk ha hb
    exact hcond ⟨List.mem_range.1 hm, rfl⟩

theorem length_charts_next (l : Lattice) (p : Parse) (s : Nat × Nat) :
    (next l p s).charts.length = p.charts.length := by
  obtain ⟨i, j⟩ := s
  rw [next_eq]
  simp [mapCharts]

/-- Each span is expanded as often as it is taken. -/
theorem count_expand_steps (ss : List (Nat × Nat)) (p : Parse) (k i j : Nat) :
    (steps l ss p).count (.expand k i j)
      = if k < p.charts.length then ss.count (i, j) else 0 := by
  induction ss generalizing p with
  | nil => simp [steps]
  | cons s ss ih =>
      unfold steps
      rw [List.count_append, count_expand_spanSteps, ih, length_charts_next,
        List.count_cons]
      by_cases hk : k < p.charts.length
      · by_cases hs : s = (i, j)
        · simp [hk, hs, Nat.add_comm]
        · simp [hk, hs]
      · simp [hk]

/-- Every span of the lattice that is not empty is expanded exactly once on
every chart, and no others are. -/
theorem count_expand_log (l : Lattice) (start : Parse) (k i j : Nat) :
    (log l start).count (.expand k i j)
      = if k < start.charts.length ∧ i < j ∧ j ≤ l.sourceLength then 1
        else 0 := by
  unfold log
  rw [count_expand_steps]
  by_cases hk : k < start.charts.length
  · by_cases hspan : i < j ∧ j ≤ l.sourceLength
    · rw [if_pos hk, if_pos ⟨hk, hspan⟩]
      exact List.count_eq_one_of_mem (order_nodup l) (mem_order.2 hspan)
    · rw [if_pos hk, if_neg fun h => hspan h.2]
      exact List.count_eq_zero_of_not_mem fun hmem => hspan (mem_order.1 hmem)
  · rw [if_neg hk, if_neg fun h => hk h.1]

-- ============================================================== frames

/-- The tables have the size of the lattice, items stand in their cells, and
the forest is sound. -/
structure Fit (l : Lattice) (p : Parse) : Prop where
  charts : ∀ (k : Nat) (c : ChartedGrammar), p.charts[k]? = some c →
    c.chart.Placed ∧ c.chart.limit = l.nodeCount
  sound : p.forest.Sound
  max : p.forest.cells.max = l.nodeCount

/-- The items over a span in the chart with a place. -/
def itemsOf (p : Parse) (k x y : Nat) : Option (List Item) :=
  p.charts[k]?.map fun c => c.chart.itemsAt x y

/-- Two states list the same constituents over a span, with the same
derivations at the same costs. -/
def SameCell (p q : Parse) (x y : Nat) : Prop :=
  q.forest.cellAt x y = p.forest.cellAt x y
    ∧ ∀ lhs id, (lhs, id) ∈ p.forest.cellAt x y →
        q.forest.constituents[id]? = p.forest.constituents[id]?

theorem SameCell.refl (p : Parse) (x y : Nat) : SameCell p p x y :=
  ⟨rfl, fun _ _ _ => rfl⟩

theorem SameCell.trans {p q r : Parse} (h : SameCell p q x y)
    (h' : SameCell q r x y) : SameCell p r x y :=
  ⟨h'.1.trans h.1, fun lhs id hid =>
    (h'.2 lhs id (h.1.symm ▸ hid)).trans (h.2 lhs id hid)⟩

/-- The chart after it has been changed at a place. -/
theorem fit_modify (h : p.Fit l) (k : Nat)
    {change : GrammarView → ItemChart → ItemChart}
    (hplaced : ∀ g c, c.Placed → (change g c).Placed)
    (hlimit : ∀ g c, (change g c).limit = c.limit) :
    Fit l { p with charts := p.charts.modify k fun c =>
      { c with chart := change c.grammar c.chart } } where
  charts := by
    intro m c hc
    rw [List.getElem?_modify] at hc
    obtain ⟨c', hc', rfl⟩ := Option.map_eq_some_iff.1 hc
    obtain ⟨hp, hl⟩ := h.charts m c' hc'
    split
    · exact ⟨hplaced _ _ hp, (hlimit _ _).trans hl⟩
    · exact ⟨hp, hl⟩
  sound := h.sound
  max := h.max

/-- One completion is a step of recording. -/
theorem records_record (h : p.Fit l) (hij : i ≤ j) (hj : j ≤ l.nodeCount)
    (d : Completion) :
    ∃ made, Forest.Records i j [d] made p.forest
      (Action.run l p (.record i j d)).forest := by
  obtain ⟨made, -, hrec⟩ := Recorded.records_add
    (r := ⟨p.forest, [], 0⟩) h.sound hij (by rwa [h.max]) d
  exact ⟨made, hrec⟩

theorem Fit.run (h : p.Fit l) (hij : a.span.1 ≤ a.span.2)
    (hj : a.span.2 ≤ l.nodeCount) : (a.run l p).Fit l := by
  cases a with
  | expand k i j =>
      exact fit_modify h k (fun g c hc => hc.expand g l p.forest i j)
        fun g c => ItemChart.limit_expand g l p.forest i j c
  | record i j d =>
      obtain ⟨made, hrec⟩ := records_record h hij hj d
      exact ⟨h.charts, hrec.sound, hrec.max_eq.trans h.max⟩
  | start k i j =>
      exact fit_modify h k (fun g c hc => hc.start g p.forest i j)
        fun g c => ItemChart.limit_start g p.forest i j c

/-- Where changing a chart keeps its items over a span, changing one of the
charts keeps those of all. -/
theorem itemsOf_modify (m : Nat) (change : GrammarView → ItemChart → ItemChart)
    (hkeep : ∀ c, p.charts[k]? = some c →
      (change c.grammar c.chart).itemsAt x y = c.chart.itemsAt x y) :
    itemsOf { p with charts := p.charts.modify m fun c =>
        { c with chart := change c.grammar c.chart } } k x y
      = itemsOf p k x y := by
  unfold itemsOf
  rw [List.getElem?_modify]
  cases hc : p.charts[k]? with
  | none => rfl
  | some c =>
      show some _ = some _
      congr 1
      split
      · exact hkeep c hc
      · rfl

/-- A step changes no items but those of its row that end at the end of its
span or later. -/
theorem itemsOf_run (h : p.Fit l)
    (hne : ¬ (x = a.span.1 ∧ a.span.2 ≤ y)) (k : Nat) :
    itemsOf (a.run l p) k x y = itemsOf p k x y := by
  cases a with
  | expand m i j =>
      refine itemsOf_modify m (fun g c => c.expand g l p.forest i j)
        fun c hc => ?_
      exact ItemChart.itemsAt_expand_of_not_reached c.grammar
        (h.charts k c hc).1 hne
  | record i j d => rfl
  | start m i j =>
      refine itemsOf_modify m (fun g c => c.start g p.forest i j)
        fun c hc => ?_
      refine ItemChart.itemsAt_start_of_ne c.grammar (h.charts k c hc).1 ?_
      exact fun heq => hne ⟨heq.1, Nat.le_of_eq heq.2.symm⟩

/-- A step changes no constituents but those of its span. -/
theorem sameCell_run (h : p.Fit l) (hij : a.span.1 ≤ a.span.2)
    (hj : a.span.2 ≤ l.nodeCount) (hne : (x, y) ≠ a.span) :
    SameCell p (a.run l p) x y := by
  cases a with
  | expand k i j => exact .refl p x y
  | record i j d =>
      obtain ⟨made, hrec⟩ := records_record h hij hj d
      have hxy : ¬ (x = i ∧ y = j) := fun heq => hne (by rw [heq.1, heq.2]; rfl)
      exact ⟨hrec.cellAt_of_ne x y hxy, hrec.constituent_of_ne x y hxy⟩
  | start k i j => exact .refl p x y

-- ================================================================ runs

section Runs

variable {as : List Action}

/-- Steps over spans of the lattice. -/
def Legal (l : Lattice) (a : Action) : Prop :=
  a.span.1 ≤ a.span.2 ∧ a.span.2 ≤ l.nodeCount

theorem Fit.foldl (h : p.Fit l) (has : ∀ a ∈ as, Legal l a) :
    (as.foldl (Action.run l) p).Fit l := by
  induction as generalizing p with
  | nil => exact h
  | cons a as ih =>
      have ha := has a (List.mem_cons_self ..)
      exact ih (h.run ha.1 ha.2) fun b hb => has b (List.mem_cons_of_mem _ hb)

/-- Steps that each leave some items alone. -/
theorem itemsOf_foldl (h : p.Fit l) (has : ∀ a ∈ as, Legal l a)
    (hne : ∀ a ∈ as, ¬ (x = a.span.1 ∧ a.span.2 ≤ y)) (k : Nat) :
    itemsOf (as.foldl (Action.run l) p) k x y = itemsOf p k x y := by
  induction as generalizing p with
  | nil => rfl
  | cons a as ih =>
      have ha := has a (List.mem_cons_self ..)
      rw [List.foldl_cons, ih (h.run ha.1 ha.2)
        (fun b hb => has b (List.mem_cons_of_mem _ hb))
        fun b hb => hne b (List.mem_cons_of_mem _ hb)]
      exact itemsOf_run h (hne a (List.mem_cons_self ..)) k

/-- Steps that each leave some constituents alone. -/
theorem sameCell_foldl (h : p.Fit l) (has : ∀ a ∈ as, Legal l a)
    (hne : ∀ a ∈ as, (x, y) ≠ a.span) :
    SameCell p (as.foldl (Action.run l) p) x y := by
  induction as generalizing p with
  | nil => exact .refl p x y
  | cons a as ih =>
      have ha := has a (List.mem_cons_self ..)
      have hstep := sameCell_run h ha.1 ha.2 (hne a (List.mem_cons_self ..))
      exact hstep.trans (ih (h.run ha.1 ha.2)
        (fun b hb => has b (List.mem_cons_of_mem _ hb))
        fun b hb => hne b (List.mem_cons_of_mem _ hb))

end Runs

-- ========================================================== the contract

section Contract

variable {start : Parse} {n m : Nat}

theorem legal_of_mem_log (ha : a ∈ log l start) : Legal l a := by
  obtain ⟨hlt, hle⟩ := mem_order.1 (span_mem_of_mem_steps ha)
  exact ⟨Nat.le_of_lt hlt, l.nodeCount_eq ▸ Nat.le_succ_of_le hle⟩

theorem fit_stateAfter (h : start.Fit l) (n : Nat) :
    (stateAfter l start n).Fit l :=
  h.foldl fun _ ha => legal_of_mem_log (List.mem_of_mem_take ha)

/-- Between two moments stand the steps that have been made. -/
theorem stateAfter_eq (hnm : n ≤ m) :
    stateAfter l start m
      = (((log l start).drop n).take (m - n)).foldl (Action.run l)
          (stateAfter l start n) := by
  unfold stateAfter
  rw [← List.foldl_append, ← List.take_add, Nat.add_sub_cancel' hnm]

/-- What comes later in the log has the same span or one that does not lie
within it. -/
theorem later_span {b : Action} (ha : (log l start)[n]? = some a)
    (hb : b ∈ (log l start).drop n) :
    b.span = a.span ∨ ¬ Within b.span a.span := by
  obtain ⟨hn, rfl⟩ := List.getElem?_eq_some_iff.1 ha
  have hpairwise := steps_pairwise (order_pairwise l) (l := l) start
  rw [List.drop_eq_getElem_cons hn] at hb
  rcases List.mem_cons.1 hb with rfl | hb
  · exact Or.inl rfl
  obtain ⟨k, hk⟩ := List.mem_iff_getElem?.1 hb
  rw [List.getElem?_drop] at hk
  obtain ⟨hlt, rfl⟩ := List.getElem?_eq_some_iff.1 hk
  exact List.pairwise_iff_getElem.1 hpairwise n (n + 1 + k) hn hlt (by omega)

/-- From the moment in which a step is made, items of its row that end before
the end of its span are left alone, in all charts, and so are constituents
that start behind its start and end where it ends. -/
theorem left_alone_from (h : start.Fit l) (ha : (log l start)[n]? = some a)
    (hnm : n ≤ m) :
    (∀ k y, y < a.span.2 →
        itemsOf (stateAfter l start m) k a.span.1 y
          = itemsOf (stateAfter l start n) k a.span.1 y)
      ∧ ∀ x, a.span.1 < x →
          SameCell (stateAfter l start n) (stateAfter l start m)
            x a.span.2 := by
  have hlater : ∀ b ∈ ((log l start).drop n).take (m - n),
      Legal l b ∧ (b.span = a.span ∨ ¬ Within b.span a.span) := by
    intro b hb
    have hb := List.mem_of_mem_take hb
    exact ⟨legal_of_mem_log (List.mem_of_mem_drop hb), later_span ha hb⟩
  rw [stateAfter_eq hnm]
  constructor
  · intro k y hy
    refine itemsOf_foldl (fit_stateAfter h n) (fun b hb => (hlater b hb).1) ?_ k
    intro b hb hrow
    obtain ⟨hstart, hstop⟩ := hrow
    rcases (hlater b hb).2 with hspan | hspan
    -- a step of the same span writes to its end or behind it
    · rw [hspan] at hstop
      omega
    · exact hspan ⟨Nat.le_of_eq hstart, by omega⟩
  · intro x hx
    refine sameCell_foldl (fit_stateAfter h n) (fun b hb => (hlater b hb).1) ?_
    intro b hb hxy
    rcases (hlater b hb).2 with hspan | hspan
    · rw [hspan] at hxy
      rw [← hxy] at hx
      exact Nat.lt_irrefl _ hx
    · rw [← hxy] at hspan
      exact hspan ⟨Nat.le_of_lt hx, Nat.le_refl _⟩

/-- When the last step of a span has been made, its items are left alone, in
all charts, and so are its constituents. -/
theorem left_alone_after (h : start.Fit l) (ha : (log l start)[n]? = some a)
    (hlast : ∀ b ∈ (log l start).drop (n + 1), b.span ≠ a.span)
    (hnm : n + 1 ≤ m) :
    (∀ k, itemsOf (stateAfter l start m) k a.span.1 a.span.2
        = itemsOf (stateAfter l start (n + 1)) k a.span.1 a.span.2)
      ∧ SameCell (stateAfter l start (n + 1)) (stateAfter l start m)
          a.span.1 a.span.2 := by
  have hlater : ∀ b ∈ ((log l start).drop (n + 1)).take (m - (n + 1)),
      Legal l b ∧ ¬ Within b.span a.span := by
    intro b hb
    have hb := List.mem_of_mem_take hb
    have hdrop : b ∈ (log l start).drop n := by
      rw [← List.drop_drop] at hb
      exact List.mem_of_mem_drop hb
    exact ⟨legal_of_mem_log (List.mem_of_mem_drop hb),
      (later_span ha hdrop).resolve_left (hlast b hb)⟩
  rw [stateAfter_eq hnm]
  constructor
  · intro k
    refine itemsOf_foldl (fit_stateAfter h _) (fun b hb => (hlater b hb).1) ?_ k
    exact fun b hb hrow =>
      (hlater b hb).2 ⟨Nat.le_of_eq hrow.1, hrow.2⟩
  · refine sameCell_foldl (fit_stateAfter h _) (fun b hb => (hlater b hb).1) ?_
    intro b hb hspan
    refine (hlater b hb).2 ?_
    rw [← hspan]
    exact .refl _

end Contract

theorem fit_begin {gs : List GrammarView} {start : Parse}
    (h : begin l gs = .ok start) : start.Fit l := by
  rw [Charting.begin_eq h]
  have hseeded := Charting.fit_seeded l
  refine ⟨fun k c hc => ?_, hseeded.sound, hseeded.max⟩
  obtain ⟨g, -, rfl⟩ := List.mem_map.1 (List.mem_of_getElem? hc)
  exact ⟨hseeded.placed g, hseeded.limit g⟩

end Parse

/-- A parse keeps to the order of calls that its charts ask for, with any
grammars for which it is set up. Running the steps of its log takes the spans
in their order and gives its result. Every span of the lattice that is not
empty is expanded exactly once on every chart, and no other span is. From the
moment in which a chart is expanded over the span from `i` to `j`, no step
changes the items from `i` to an end before `j`, in this chart or another, nor
the constituents that end at `j` and start behind `i`, their left-hand sides,
derivations and costs. When the last step of the span has been made, neither
its items, in any chart, nor its constituents change any more. -/
theorem calls_in_order {l : Lattice} {gs : List GrammarView} {start : Parse}
    (h : Parse.begin l gs = .ok start) :
    (∀ goal, ∃ r, l.parse gs goal = .ok r
        ∧ r.parse = Parse.stateAfter l start (Parse.log l start).length)
      ∧ (∀ ss ts, Parse.order l = ss ++ ts →
          Parse.stateAfter l start (Parse.steps l ss start).length
            = ss.foldl (Parse.next l) start)
      ∧ (∀ k i j, (Parse.log l start).count (.expand k i j)
          = if k < gs.length ∧ i < j ∧ j ≤ l.sourceLength then 1 else 0)
      ∧ (∀ n k i j, (Parse.log l start)[n]? = some (.expand k i j) →
          ∀ m, n ≤ m →
            (∀ k' y, y < j →
              (Parse.stateAfter l start m).itemsOf k' i y
                = (Parse.stateAfter l start n).itemsOf k' i y)
            ∧ ∀ x, i < x →
                (Parse.stateAfter l start n).SameCell
                  (Parse.stateAfter l start m) x j)
      ∧ (∀ n a, (Parse.log l start)[n]? = some a →
          (∀ b ∈ (Parse.log l start).drop (n + 1), b.span ≠ a.span) →
          ∀ m, n + 1 ≤ m →
            (∀ k, (Parse.stateAfter l start m).itemsOf k a.span.1 a.span.2
              = (Parse.stateAfter l start (n + 1)).itemsOf k a.span.1 a.span.2)
            ∧ (Parse.stateAfter l start (n + 1)).SameCell
                (Parse.stateAfter l start m) a.span.1 a.span.2) := by
  have hfit := Parse.fit_begin h
  have hcharts : start.charts.length = gs.length := by
    rw [Charting.begin_eq h]
    exact List.length_map ..
  refine ⟨fun goal => ?_, fun _ _ => Parse.stateAfter_spans start,
    fun k i j => ?_, fun n k i j hn m hnm => ?_, fun n a hn hlast m hnm => ?_⟩
  · refine ⟨_, by rw [Parse.parse_eq, h]; rfl, ?_⟩
    exact (Parse.stateAfter_spans start (List.append_nil _).symm).symm
  · rw [Parse.count_expand_log, hcharts]
  · exact Parse.left_alone_from hfit hn hnm
  · exact Parse.left_alone_after hfit hn hlast hnm

/-- A parse of two words with rules of which two go round in a circle: the
whole is expanded once, and then the items over the first word stay. -/
theorem calls_in_order_two_words :
    ∃ start, Parse.begin (.ofSentence [1, 2])
        [(GrammarContents.mk (E := .standard) 0 {}
          [⟨-1, [1], ""⟩, ⟨-2, [-1, 2], ""⟩, ⟨-2, [-3], ""⟩, ⟨-3, [-2], ""⟩]
          {}).view {}] = .ok start
      ∧ (Parse.log (.ofSentence [1, 2]) start).count (.expand 0 0 2) = 1
      ∧ ∀ n, (Parse.log (.ofSentence [1, 2]) start)[n]?
            = some (.expand 0 0 2) →
          ∀ m, n ≤ m →
            (Parse.stateAfter (.ofSentence [1, 2]) start m).itemsOf 0 0 1
              = (Parse.stateAfter (.ofSentence [1, 2]) start n).itemsOf
                  0 0 1 := by
  obtain ⟨start, h⟩ := Charting.exists_begin (.ofSentence [1, 2])
    [GrammarContents.mk (E := .standard) 0 {}
      [⟨-1, [1], ""⟩, ⟨-2, [-1, 2], ""⟩, ⟨-2, [-3], ""⟩, ⟨-3, [-2], ""⟩] {}] {}
  obtain ⟨-, -, hcount, hlater, -⟩ := calls_in_order h
  refine ⟨start, h, ?_, fun n hn m hnm => ?_⟩
  · rw [hcount]
    rfl
  · exact (hlater n 0 0 2 hn m hnm).1 0 1 (by decide)

end LatticeParsing
