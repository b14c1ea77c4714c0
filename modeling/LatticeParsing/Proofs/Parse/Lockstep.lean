/-
Parses that go in step.

The charts ask a grammar where a symbol leads, and only from positions that
they have come to, for nonterminals and for labels of arcs of the lattice.
Two views of a grammar that answer these questions alike (`LeadAlike`) are
the same to the charts: expanding, starting and counting give the same,
and lead to further positions of this kind (`StandsOn`).

Two parses whose grammars lead alike, place by place, with the same charts
and the same forest are in step (`Parse.InStep`). Taking a span keeps them in
step and counts the same (`InStep.takeSpan`), so whole runs do
(`InStep.takeWidths`).
-/
import LatticeParsing.Chart.Run
import LatticeParsing.Proofs.Chart.ItemCells
import LatticeParsing.Proofs.Grammar.Nonterminals
import Mathlib.Data.List.Forall2

namespace LatticeParsing

-- ========================================================= leading alike

/-- Whether a symbol can be met on a lattice: it is a nonterminal or the
label of an arc. -/
def Lattice.Meets (l : Lattice) (s : Symbol) : Prop :=
  0 ≤ s → ∃ k, ∃ a ∈ l.arcsFrom k, a.label = s

/-- The rules with a single nonterminal that a symbol leads to from the
root. -/
def GrammarView.unaryRules (g : GrammarView) (s : Symbol) : List ListedRule :=
  match g.root?.bind (g.follow? · s) with
  | none => []
  | some p => p.rules.filter (·.rule.isUnary)

/-- Whether two views of a grammar lead alike on a lattice: they allow the same
spans, symbols that can be met lead to the same positions from the positions
`on`, which are not left, and the same rules with a single nonterminal apply
to a constituent. None of the positions is merged. -/
structure GrammarView.LeadAlike (l : Lattice) (on : Position → Prop)
    (g g' : GrammarView) : Prop where
  root : g'.root? = g.root?
  allows : g'.allows = g.allows
  follow : ∀ p s, on p → l.Meets s → g'.follow? p s = g.follow? p s
  on_follow : ∀ p s q, on p → g.follow? p s = some q → on q
  unary : ∀ s, g'.unaryRules s = g.unaryRules s
  single : ∀ p, on p → p.isMerged = false

-- ================================================================ charts

namespace ItemChart

variable {l : Lattice} {f : Forest} {on : Position → Prop}
  {g g' : GrammarView} {c : ItemChart} {i j k : Nat}

/-- Whether the items of a chart stand at positions of a kind. -/
def StandsOn (on : Position → Prop) (c : ItemChart) : Prop :=
  ∀ i j, ∀ x ∈ c.itemsAt i j, on x.position

theorem StandsOn.addAll (h : c.StandsOn on) {xs : List Item}
    (hxs : ∀ x ∈ xs, on x.position) : (c.addAll xs).StandsOn on := by
  intro i j x hx
  rcases mem_itemsAt_addAll hx with hx | ⟨hmem, -⟩
  · exact h i j x hx
  · exact hxs x hmem

variable (h : g.LeadAlike l on g') (hc : c.StandsOn on)

include h hc

theorem overConstituents_alike (f : Forest) (e : Bool) (i k j : Nat) :
    overConstituents g' f e i k j c = overConstituents g f e i k j c := by
  unfold overConstituents
  refine List.flatMap_congr fun x hx => List.filterMap_congr fun s _ => ?_
  obtain ⟨lhs, id⟩ := s
  simp only
  by_cases hnt : Symbol.containsSorted x.position.nonterminals lhs = true
  · have hneg := Position.neg_of_containsSorted hnt
    rw [h.follow _ _ (hc i k x hx) fun hpos => absurd hneg (not_lt.2 hpos)]
  · rw [if_neg hnt, if_neg hnt]

theorem overArcs_alike (i k : Nat) :
    overArcs g' l i k c = overArcs g l i k c := by
  unfold overArcs
  refine List.flatMap_congr fun a ha => List.filterMap_congr fun x hx => ?_
  rw [h.follow _ _ (hc i k x hx) fun _ =>
    ⟨k, a, (List.mem_filter.1 ha).1, rfl⟩]

theorem on_overConstituents {e : Bool} {y : Item}
    (hy : y ∈ overConstituents g f e i k j c) : on y.position := by
  obtain ⟨x, hx, lhs, id, p, -, -, hp, -, rfl⟩ := (mem_overConstituents g).1 hy
  exact h.on_follow _ _ _ (hc i k x hx) hp

theorem on_overArcs {y : Item} (hy : y ∈ overArcs g l i k c) :
    on y.position := by
  obtain ⟨x, hx, a, -, p, -, hp, rfl⟩ := (mem_overArcs g).1 hy
  exact h.on_follow _ _ _ (hc i k x hx) hp

/-- Crossing constituents at several split points gives the same and counts
the same. -/
theorem crossSplits_alike (f : Forest) (i j : Nat) (ks : List Nat) :
    crossSplits g' f i j c ks = crossSplits g f i j c ks
      ∧ splitCount g' f i j c ks = splitCount g f i j c ks
      ∧ (crossSplits g f i j c ks).StandsOn on := by
  unfold crossSplits
  induction ks generalizing c with
  | nil => exact ⟨rfl, rfl, hc⟩
  | cons k ks ih =>
      have hsame := overConstituents_alike h hc f false i k j
      obtain ⟨hcharts, hcounts, hstands⟩ :=
        ih (hc.addAll fun y hy => on_overConstituents h hc hy)
      refine ⟨?_, ?_, hstands⟩
      · rw [List.foldl_cons, hsame, hcharts]
        rfl
      · unfold splitCount
        rw [hsame]
        exact congrArg _ hcounts

theorem expand_alike (f : Forest) (i j : Nat) :
    c.expand g' l f i j = c.expand g l f i j
      ∧ c.expandCount g' l f i j = c.expandCount g l f i j
      ∧ (c.expand g l f i j).StandsOn on := by
  obtain ⟨hcharts, hcounts, hstands⟩ :=
    crossSplits_alike h hc f i j (List.range' (i + 1) (j - (i + 1)))
  have harcs := overArcs_alike h hstands i (j - 1)
  unfold expand expandCount
  split
  · exact ⟨rfl, rfl, hc⟩
  · simp only [hcharts, hcounts, harcs, true_and]
    exact hstands.addAll fun y hy => on_overArcs h hstands hy

theorem start_alike (f : Forest) (i j : Nat) :
    c.start g' f i j = c.start g f i j
      ∧ c.startCount g' f i j = c.startCount g f i j
      ∧ (c.start g f i j).StandsOn on := by
  have hsame := overConstituents_alike h hc f true i i j
  unfold start startCount
  rw [hsame]
  exact ⟨rfl, rfl, hc.addAll fun y hy => on_overConstituents h hc hy⟩

end ItemChart

-- =============================================================== in step

/-- Whether two grammars lead alike and have the same chart, whose items stand
where they do. -/
def ChartedGrammar.InStep (l : Lattice) (c c' : ChartedGrammar) : Prop :=
  c'.chart = c.chart
    ∧ ∃ on, c.grammar.LeadAlike l on c'.grammar ∧ c.chart.StandsOn on

namespace Parse

variable {l : Lattice} {p p' : Parse} {cs cs' : List ChartedGrammar}
  {i j : Nat}

/-- Whether two parses have the same forest, and grammars in step, place by
place. -/
structure InStep (l : Lattice) (p p' : Parse) : Prop where
  forest : p'.forest = p.forest
  charts : p.charts.Forall₂ (ChartedGrammar.InStep l) p'.charts

/-- What is read off grammars in step alike is the same in all. -/
theorem map_eq_of_inStep {α : Type} (read read' : ChartedGrammar → α)
    (h : cs.Forall₂ (ChartedGrammar.InStep l) cs')
    (hread : ∀ c c', c.InStep l c' → read' c' = read c) :
    cs'.map read' = cs.map read := by
  induction h with
  | nil => rfl
  | cons hc _ ih => rw [List.map_cons, List.map_cons, hread _ _ hc, ih]

/-- The items of grammars in step stand at single places. -/
theorem single_of_inStep (h : cs.Forall₂ (ChartedGrammar.InStep l) cs')
    {c : ChartedGrammar} (hc : c ∈ cs) {x : Item}
    (hx : x ∈ c.chart.itemsAt i j) : x.position.isMerged = false := by
  induction h with
  | nil => cases hc
  | cons hfirst _ ih =>
      rcases List.mem_cons.1 hc with rfl | hc
      · obtain ⟨-, on, halike, hstands⟩ := hfirst
        exact halike.single _ (hstands i j x hx)
      · exact ih hc

/-- Changing charts in a way that depends on where the grammars lead keeps
them in step and counts the same. -/
theorem mapCharts_inStep
    (change : GrammarView → ItemChart → ItemChart)
    (count : GrammarView → ItemChart → Nat)
    (hchange : ∀ g g' on c, g.LeadAlike l on g' → c.StandsOn on →
      change g' c = change g c ∧ count g' c = count g c
        ∧ (change g c).StandsOn on)
    (h : cs.Forall₂ (ChartedGrammar.InStep l) cs') :
    (mapCharts change cs).Forall₂ (ChartedGrammar.InStep l)
        (mapCharts change cs')
      ∧ countCharts count cs' = countCharts count cs := by
  constructor
  · unfold mapCharts
    rw [List.forall₂_map_left_iff, List.forall₂_map_right_iff]
    refine h.imp fun c c' hc => ?_
    obtain ⟨hchart, on, halike, hstands⟩ := hc
    obtain ⟨hsame, -, hstands'⟩ := hchange _ _ on _ halike hstands
    refine ⟨?_, on, halike, hstands'⟩
    show change c'.grammar c'.chart = _
    rw [hchart, hsame]
  · unfold countCharts
    rw [map_eq_of_inStep _ _ h fun c c' hc => ?_]
    obtain ⟨hchart, on, halike, hstands⟩ := hc
    rw [hchart]
    exact (hchange _ _ on _ halike hstands).2.1

-- ============================================================= rules

theorem allowing_inStep (h : cs.Forall₂ (ChartedGrammar.InStep l) cs')
    (i j : Nat) :
    (allowing l cs i j).Forall₂ (ChartedGrammar.InStep l)
      (allowing l cs' i j) := by
  unfold allowing
  cases l.distance i j with
  | none => exact .nil
  | some d =>
      simp only
      induction h with
      | nil => exact .nil
      | @cons c c' _ _ hc _ ih =>
          obtain ⟨-, on, halike, -⟩ := id hc
          rw [List.filter_cons, List.filter_cons, halike.allows]
          split
          · exact .cons hc ih
          · exact ih

theorem completions_inStep (h : cs.Forall₂ (ChartedGrammar.InStep l) cs')
    (i j : Nat) : completions l cs' i j = completions l cs i j := by
  unfold completions
  rw [List.flatMap_def, List.flatMap_def,
    map_eq_of_inStep _ _ (allowing_inStep h i j) fun c c' hc => by rw [hc.1]]

theorem unaryCompletions_eq (cs : List ChartedGrammar) (i j : Nat)
    (lhs : Symbol) (id : Nat) :
    unaryCompletions l cs i j lhs id
      = (allowing l cs i j).flatMap fun c =>
          (c.grammar.unaryRules lhs).map fun r => ⟨r, [id], .zero⟩ := by
  unfold unaryCompletions GrammarView.unaryRules
  refine List.flatMap_congr fun c _ => ?_
  cases c.grammar.root?.bind fun root => c.grammar.follow? root lhs <;> rfl

theorem unaryCompletions_inStep
    (h : cs.Forall₂ (ChartedGrammar.InStep l) cs') (i j : Nat)
    (lhs : Symbol) (id : Nat) :
    unaryCompletions l cs' i j lhs id = unaryCompletions l cs i j lhs id := by
  rw [unaryCompletions_eq, unaryCompletions_eq, List.flatMap_def,
    List.flatMap_def,
    map_eq_of_inStep _ _ (allowing_inStep h i j) fun c c' hc => ?_]
  obtain ⟨-, on, halike, -⟩ := hc
  rw [halike.unary]

/-- The closure depends on the rules that apply to each constituent. -/
theorem closeFrom_congr (h : ∀ lhs id, unaryCompletions l cs' i j lhs id
      = unaryCompletions l cs i j lhs id)
    (fuel : Nat) (queue : List Nat) (r : Recorded) :
    closeFrom l cs' i j fuel queue r = closeFrom l cs i j fuel queue r := by
  induction fuel generalizing queue r with
  | zero => rfl
  | succ fuel ih =>
      cases queue with
      | nil => rfl
      | cons id queue =>
          unfold closeFrom
          cases r.forest.constituents[id]? with
          | none => exact ih queue r
          | some c =>
              simp only [h]
              exact ih _ _

theorem closeUnary_inStep (h : cs.Forall₂ (ChartedGrammar.InStep l) cs')
    (i j : Nat) (f : Forest) (made : List Nat) :
    closeUnary l cs' i j f made = closeUnary l cs i j f made := by
  have hbound : ruleBound cs' = ruleBound cs := by
    unfold ruleBound
    refine congrArg _ (map_eq_of_inStep _ _ h fun c c' hc => ?_)
    obtain ⟨-, on, halike, -⟩ := hc
    rw [halike.root]
  unfold closeUnary
  rw [hbound, closeFrom_congr (unaryCompletions_inStep h i j)]

-- ================================================================ runs

/-- Taking a span keeps parses in step and counts the same. -/
theorem InStep.takeSpan (h : InStep l p p') (i j : Nat) (n : PassCounts) :
    InStep l (takeSpan l i j p n).1 (takeSpan l i j p' n).1
      ∧ (takeSpan l i j p' n).2 = (takeSpan l i j p n).2 := by
  obtain ⟨hexpanded, hexpands⟩ := mapCharts_inStep
    (fun g c => c.expand g l p.forest i j)
    (fun g c => c.expandCount g l p.forest i j)
    (fun g g' on c halike hc => ItemChart.expand_alike halike hc p.forest i j)
    h.charts
  have hstarted := fun f => mapCharts_inStep
    (fun g c => c.start g f i j) (fun g c => c.startCount g f i j)
    (fun g g' on c halike hc => ItemChart.start_alike halike hc f i j)
    hexpanded
  unfold Parse.takeSpan
  simp only [h.forest, hexpands, completions_inStep hexpanded,
    closeUnary_inStep hexpanded, (hstarted _).2, and_true]
  exact ⟨rfl, (hstarted _).1⟩

/-- Taking the spans of a width does. -/
theorem InStep.takeWidth (h : InStep l p p') (w : Nat) :
    InStep l (takeWidth l w p).1 (takeWidth l w p').1
      ∧ (takeWidth l w p').2 = (takeWidth l w p).2 := by
  have key : ∀ (is : List Nat) (s s' : Parse × PassCounts),
      InStep l s.1 s'.1 → s'.2 = s.2 →
      let taken := is.foldl (fun s i => Parse.takeSpan l i (i + w) s.1 s.2) s
      let taken' := is.foldl (fun s i => Parse.takeSpan l i (i + w) s.1 s.2) s'
      InStep l taken.1 taken'.1 ∧ taken'.2 = taken.2 := by
    intro is
    induction is with
    | nil => exact fun s s' hs hcounts => ⟨hs, hcounts⟩
    | cons i is ih =>
        intro s s' hs hcounts
        obtain ⟨hnext, hnexts⟩ := hs.takeSpan i (i + w) s.2
        rw [List.foldl_cons, List.foldl_cons]
        refine ih _ _ ?_ ?_ <;> rwa [hcounts]
  exact key _ _ _ h rfl

/-- Taking the spans of several widths does. -/
theorem InStep.takeWidths (h : InStep l p p') (ws : List Nat) :
    InStep l (takeWidths l ws p).1 (takeWidths l ws p').1
      ∧ (takeWidths l ws p').2 = (takeWidths l ws p).2 := by
  induction ws generalizing p p' with
  | nil => exact ⟨h, rfl⟩
  | cons w ws ih =>
      obtain ⟨hpass, hcounts⟩ := h.takeWidth w
      obtain ⟨hrest, hrests⟩ := ih hpass
      unfold Parse.takeWidths
      exact ⟨hrest, List.cons_eq_cons.2 ⟨hcounts, hrests⟩⟩

/-- Parses in step have the same goal. -/
theorem InStep.goal?_eq (h : InStep l p p') (goal : Symbol) :
    p'.goal? l goal = p.goal? l goal := by
  unfold goal?
  rw [h.forest]

end Parse

end LatticeParsing
