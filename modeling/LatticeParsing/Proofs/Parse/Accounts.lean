/-
What the passes of a parse report.

The calls that take a span report what they add, and a pass adds the reports
up. A number of the state is reported by a count of the passes if both grow
alike whenever a span is taken (`Reports`). Then it grows in a run by what the
passes report together (`Reports.takeWidths`). So are the items of all charts
(`reports_items`) and the derivations of the forest (`reports_derivations`),
whatever the state of the charts and the forest is. The count of a chart is
also that of the items in its cells, as it is at the start and as every call
keeps it (`Charting.counted_final`).
-/
import LatticeParsing.Proofs.Chart.SpanCalls
import LatticeParsing.Proofs.Parse.Counts

namespace LatticeParsing.Parse

variable {l : Lattice} {i j : Nat}

-- ============================================================== reports

/-- Whether a count of a pass reports a number of the state: it is zero at the
start of a pass, and both grow alike when a span is taken. -/
structure Reports (size : Parse → Nat) (count : PassCounts → Nat) :
    Prop where
  fresh : ∀ w, count { width := w } = 0
  span : ∀ (l : Lattice) (i j : Nat) (p : Parse) (n : PassCounts),
    size (takeSpan l i j p n).1 + count n
      = size p + count (takeSpan l i j p n).2

namespace Reports

variable {size : Parse → Nat} {count : PassCounts → Nat}

/-- The pass of a width reports by how much the number grows. -/
theorem takeWidth (h : Reports size count) (l : Lattice) (w : Nat)
    (p : Parse) :
    size (takeWidth l w p).1 = size p + count (takeWidth l w p).2 := by
  refine takeWidth_induction
    (I := fun s => size s.1 = size p + count s.2) ?_ fun i s _ hs => ?_
  · rw [h.fresh]
    rfl
  · have hspan := h.span l i (i + w) s.1 s.2
    omega

/-- The passes of several widths report by how much it grows in all. -/
theorem takeWidths (h : Reports size count) (l : Lattice) (ws : List Nat)
    (p : Parse) :
    size (takeWidths l ws p).1
      = size p + ((takeWidths l ws p).2.map count).sum := by
  induction ws generalizing p with
  | nil => rfl
  | cons w ws ih =>
      simp only [Parse.takeWidths, List.map_cons, List.sum_cons]
      rw [ih, h.takeWidth, Nat.add_assoc]

end Reports

/-- What holds of the counts at the start of every pass, and stays true when a
span is taken, holds of all passes. -/
theorem forall_passes {P : PassCounts → Prop}
    (hfresh : ∀ w, P { width := w })
    (hspan : ∀ i j p n, P n → P (takeSpan l i j p n).2)
    (ws : List Nat) (p : Parse) : ∀ n ∈ (takeWidths l ws p).2, P n := by
  induction ws generalizing p with
  | nil => exact fun n hn => by cases hn
  | cons w ws ih =>
      have hpass : P (takeWidth l w p).2 :=
        takeWidth_induction (I := fun s => P s.2) (hfresh w)
          fun i s _ hs => hspan i (i + w) s.1 s.2 hs
      simp only [takeWidths, List.forall_mem_cons]
      exact ⟨hpass, ih _⟩

-- ================================================================ items

/-- The items of charts that are changed grow by what is counted at each. -/
theorem totalItems_mapCharts {change : GrammarView → ItemChart → ItemChart}
    {count : GrammarView → ItemChart → Nat}
    (h : ∀ g c, (change g c).itemCount = c.itemCount + count g c)
    (charts : List ChartedGrammar) :
    ChartedGrammar.totalItems (mapCharts change charts)
      = ChartedGrammar.totalItems charts + countCharts count charts := by
  induction charts with
  | nil => rfl
  | cons c charts ih =>
      simp only [ChartedGrammar.totalItems, mapCharts, countCharts,
        List.map_cons, List.foldr_cons] at ih ⊢
      rw [ih, h]
      omega

/-- The items of a pass report the items of all charts. -/
theorem reports_items :
    Reports (fun p => ChartedGrammar.totalItems p.charts) (·.items) where
  fresh := fun _ => rfl
  span := by
    intro l i j p n
    simp only [takeSpan]
    rw [totalItems_mapCharts fun g c => ItemChart.itemCount_start i j c,
      totalItems_mapCharts fun g c => ItemChart.itemCount_expand i j c]
    omega

-- ========================================================== derivations

/-- Making a constituent makes no derivation. -/
theorem derivationCount_ensure? {f f' : Forest} {lhs : Symbol} {id : Nat}
    {isMade : Bool} (h : f.ensure? i j lhs = some (f', id, isMade)) :
    f'.derivationCount = f.derivationCount := by
  unfold Forest.ensure? at h
  split at h
  case h_1 => cases h
  case h_2 =>
    split at h
    all_goals
      injection h with h
      injection h with h
      rw [← h]

/-- Recording a derivation reports whether it is new. -/
theorem derivationCount_record (f : Forest) (id : Nat) (d : Derivation) :
    (f.record id d).1.derivationCount
      = f.derivationCount + if (f.record id d).2 then 1 else 0 := by
  unfold Forest.record
  split <;> rfl

/-- Whether the derivations that a forest has more than another have been
reported. -/
def Recorded.Reported (f : Forest) (r : Recorded) : Prop :=
  r.forest.derivationCount = f.derivationCount + r.derivations

variable {f : Forest} {r : Recorded}

theorem Recorded.Reported.add (h : r.Reported f) (i j : Nat)
    (d : Completion) : (r.add i j d).Reported f := by
  unfold Reported at h ⊢
  unfold Recorded.add
  split
  case h_1 => exact h
  case h_2 f' id isMade hensure =>
    show (f'.record id d).1.derivationCount = _
    rw [derivationCount_record, derivationCount_ensure? hensure, h,
      Nat.add_assoc]

theorem reported_recordAll (i j : Nat) (f : Forest) (ds : List Completion) :
    (recordAll i j f ds).Reported f :=
  recordAll_induction (I := Recorded.Reported f) rfl
    (fun d _ hr => hr.add i j d) ds

theorem Recorded.Reported.closeFrom (h : r.Reported f)
    (charts : List ChartedGrammar) (fuel : Nat) (queue : List Nat) :
    (closeFrom l charts i j fuel queue r).Reported f := by
  refine closeFrom_induction (I := Recorded.Reported f)
    (fun r id c _ hr => ?_) fuel queue h
  have hstep := reported_recordAll i j r.forest
    (unaryCompletions l charts i j c.lhs id)
  unfold Reported at hr hstep ⊢
  show (recordAll i j r.forest _).forest.derivationCount = _
  rw [hstep, hr, Nat.add_assoc]

/-- The derivations of a pass report the derivations of the forest. -/
theorem reports_derivations :
    Reports (·.forest.derivationCount) (·.derivations) where
  fresh := fun _ => rfl
  span := by
    intro l i j p n
    let expanded := mapCharts (fun g c => c.expand g l p.forest i j) p.charts
    let completed := recordAll i j p.forest (completions l expanded i j)
    let closed := closeUnary l expanded i j completed.forest completed.made
    have hcompleted : completed.Reported p.forest :=
      reported_recordAll i j p.forest _
    have hclosed : closed.Reported completed.forest :=
      Recorded.Reported.closeFrom (r := ⟨completed.forest, [], 0⟩) rfl ..
    unfold Recorded.Reported at hcompleted hclosed
    show closed.forest.derivationCount + n.derivations
      = p.forest.derivationCount
        + (n.derivations + completed.derivations + closed.derivations)
    omega

-- ================================================================ a run

/-- Constituents that rules with a single nonterminal make are constituents
that are made. -/
theorem unary_le (ws : List Nat) (p : Parse) :
    ∀ n ∈ (takeWidths l ws p).2, n.unaryConstituents ≤ n.constituents := by
  refine forall_passes (fun _ => Nat.le_refl 0) (fun i j p n hn => ?_) ws p
  simp only [takeSpan]
  omega

/-- The pass of a width reports the constituents of that width, their
derivations, and as many constituents as rules with a single nonterminal have
made at least. -/
theorem pass_eq {gs : List GrammarView} {goal : Symbol} {r : ParseResult}
    (h : l.parse gs goal = .ok r) {n : PassCounts} (hn : n ∈ r.passes) :
    n.constituents = r.parse.forest.madeAt (· == n.width)
      ∧ n.derivations = r.parse.forest.derivedAt (· == n.width)
      ∧ n.unaryConstituents ≤ n.constituents := by
  have hmem := List.mem_map_of_mem
    (f := fun n : PassCounts => (n.width, n.constituents, n.derivations)) hn
  rw [passes_eq h] at hmem
  obtain ⟨w, -, heq⟩ := List.mem_map.1 hmem
  obtain ⟨start, -, -, -, hpasses⟩ := exists_takeWidths h
  rw [hpasses] at hn
  simp only [Prod.mk.injEq] at heq
  obtain ⟨rfl, hmade, hderived⟩ := heq
  exact ⟨hmade.symm, hderived.symm, unary_le _ start n hn⟩

/-- All passes together report what there is at the end of a parse. -/
theorem totals_eq {gs : List GrammarView} {goal : Symbol} {r : ParseResult}
    (h : l.parse gs goal = .ok r) :
    ChartedGrammar.totalItems r.parse.charts
        = r.seeded + (r.passes.map (·.items)).sum
      ∧ r.parse.forest.constituents.size
        = (r.passes.map (·.constituents)).sum
      ∧ r.parse.forest.derivationCount
        = (r.passes.map (·.derivations)).sum := by
  obtain ⟨start, hempty, hseeded, hparse, hpasses⟩ := exists_takeWidths h
  have hmade := (adds_takeWidths (sized_empty hempty) (widths l)
    fun _ => true).2.1
  rw [hparse, hpasses, hseeded]
  refine ⟨reports_items.takeWidths l _ start, ?_, ?_⟩
  · simpa [Forest.madeAt, Forest.sumAt, hempty, Forest.empty] using hmade
  · rw [reports_derivations.takeWidths, hempty]
    exact Nat.zero_add _

/-- The counts of a parse are the sums of those of its passes. -/
theorem counts_eq (r : ParseResult) :
    r.counts = {
      seeded := r.seeded
      items := (r.passes.map (·.items)).sum
      constituents := (r.passes.map (·.constituents)).sum
      derivations := (r.passes.map (·.derivations)).sum
      passes := r.passes } := by
  have key : ∀ (ns : List PassCounts) (t : RunCounts),
      ns.foldl RunCounts.absorb t = {
        seeded := t.seeded
        items := t.items + (ns.map (·.items)).sum
        constituents := t.constituents + (ns.map (·.constituents)).sum
        derivations := t.derivations + (ns.map (·.derivations)).sum
        passes := t.passes ++ ns } := by
    intro ns
    induction ns with
    | nil => simp
    | cons n ns ih =>
        intro t
        rw [List.foldl_cons, ih]
        simp [RunCounts.absorb, Nat.add_assoc]
  unfold ParseResult.counts
  rw [key]
  simp

end LatticeParsing.Parse

namespace LatticeParsing.Charting

variable {l : Lattice} {gs : List GrammarView} {x : Charting}

-- ================================================================ cells

theorem counted_seeded (l : Lattice) (g : GrammarView) :
    ((seeded l).chart g).Counted := by
  obtain ⟨xs, hxs, -⟩ := seededChart_eq l g
  show (seededChart l g).Counted
  rw [hxs]
  exact (ItemChart.counted_empty _).addAll xs

/-- Taking a span keeps the counts of the charts those of their cells. -/
theorem counted_next (h : ∀ g, (x.chart g).Counted) (s : Nat × Nat)
    (g : GrammarView) : ((x.next l gs s).chart g).Counted :=
  ((h g).expand s.1 s.2).start s.1 s.2

/-- At the end of a parse the count of every chart is the number of the items
in its cells. -/
theorem counted_final (l : Lattice) (gs : List GrammarView)
    (g : GrammarView) : ((final l gs).chart g).Counted := by
  have key : ∀ (ss : List (Nat × Nat)) (x : Charting),
      (∀ g, (x.chart g).Counted) →
      ∀ g, ((ss.foldl (next l gs) x).chart g).Counted := by
    intro ss
    induction ss with
    | nil => exact fun x h => h
    | cons s ss ih => exact fun x h => ih _ (counted_next h s)
  exact key (Parse.order l) (seeded l) (counted_seeded l) g

end LatticeParsing.Charting
