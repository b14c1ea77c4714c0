/-
Items trace back to the seed of their row.

A parse takes the spans in an order in which everything is complete when it
is read. What is shown here needs no such order: an item chart and a forest
are taken through any calls, in any order and with any arguments, and every
item still comes from a trail that starts at the root where the item starts.

The invariant (`Traced`) is kept by items that extend others (`addAll`), so
by every step of the chart, and by calls on the forest because a forest keeps
what it lists and so keeps all trails (`Trail.mono`).
-/
import LatticeParsing.Proofs.Chart.ForestCalls
import LatticeParsing.Proofs.Chart.ItemCells
import LatticeParsing.Proofs.Grammar.Nonterminals
import LatticeParsing.Proofs.Parse.Setup
import LatticeParsing.Proofs.Parse.Trails

namespace LatticeParsing

variable {E : PatternEngine}

open ItemChart

-- ================================================================ calls

/-- A call on an item chart or on the forest that it reads. -/
inductive ChartCall where
  | expand (i j : Nat)
  | start (i j : Nat)
  | onForest (call : ForestCall)

/-- The chart and the forest after a call. -/
def ChartCall.run (g : GrammarView) (l : Lattice) (s : ItemChart × Forest) :
    ChartCall → ItemChart × Forest
  | expand i j => (s.1.expand g l s.2 i j, s.2)
  | start i j => (s.1.start g s.2 i j, s.2)
  | onForest call => (s.1, call.run s.2)

-- =============================================================== trails

variable {l : Lattice} {f f' : Forest} {c : ItemChart} {g : GrammarContents E}
  {v : Vocabulary} {i j k : Nat} {ts : List Step}

/-- Trails remain where forests grow. -/
theorem Trail.mono (hext : f.Extends f') (h : Trail l f i ts j) :
    Trail l f' i ts j := by
  induction ts generalizing i with
  | nil => exact h
  | cons t ts ih =>
      obtain ⟨hcross, hrest⟩ := h
      refine ⟨?_, ih hrest⟩
      cases t with
      | arc n a => exact hcross
      | constituent stop lhs id => exact ⟨hext.listed hcross.1, hcross.2⟩

/-- Whether an item comes from a trail over its span. -/
def Item.FromTrail (l : Lattice) (g : GrammarContents E) (v : Vocabulary)
    (f : Forest) (x : Item) : Prop :=
  ∃ ts, Trail l f x.start ts x.stop
    ∧ Carries (g.view v) x.start x.stop ts x

-- ============================================================ invariant

/-- Every item of the chart stands over its span and comes from a trail. -/
structure Traced (l : Lattice) (g : GrammarContents E) (v : Vocabulary)
    (f : Forest) (c : ItemChart) : Prop where
  placed : c.Placed
  limit_eq : c.limit = l.nodeCount
  fromTrail : ∀ i j, ∀ x ∈ c.itemsAt i j, x.FromTrail l g v f

namespace Traced

theorem addAll (h : Traced l g v f c) {xs : List Item}
    (hxs : ∀ x ∈ xs, x.FromTrail l g v f) : Traced l g v f (c.addAll xs) where
  placed := h.placed.addAll xs
  limit_eq := (limit_addAll c xs).trans h.limit_eq
  fromTrail := by
    intro i j x hx
    rcases mem_itemsAt_addAll hx with hx | ⟨hmem, -⟩
    · exact h.fromTrail i j x hx
    · exact hxs x hmem

/-- What the chart holds stays traced where the forest grows. -/
theorem mono (h : Traced l g v f c) (hext : f.Extends f') :
    Traced l g v f' c where
  placed := h.placed
  limit_eq := h.limit_eq
  fromTrail := by
    intro i j x hx
    obtain ⟨ts, htrail, hcarries⟩ := h.fromTrail i j x hx
    exact ⟨ts, htrail.mono hext, hcarries⟩

/-- Every node starts with an item of the root, which has the trail without
steps. -/
theorem seeds (l : Lattice) (g : GrammarContents E) (v : Vocabulary)
    (f : Forest) :
    Traced l g v f ((empty l.nodeCount).addAll
      ((List.range l.nodeCount).map (Charting.seedItem g))) := by
  have hempty : Traced l g v f (empty l.nodeCount) :=
    ⟨placed_empty _, rfl, fun i j x hx => by simp at hx⟩
  refine hempty.addAll fun x hx => ?_
  obtain ⟨j, -, rfl⟩ := List.mem_map.1 hx
  exact ⟨[], rfl, .root g.grammar.root, rfl, rfl⟩

-- ================================================================ steps

/-- Crossing a constituent appends a step to a trail. -/
theorem overConstituents (h : Traced l g v f c) {e : Bool} {y : Item}
    (hy : y ∈ overConstituents (g.view v) f e i k j c) :
    y.FromTrail l g v f := by
  obtain ⟨x, hx, lhs, id, p, hlisted, hnt, hp, -, rfl⟩ :=
    (mem_overConstituents _).1 hy
  obtain ⟨rfl, rfl⟩ := h.placed i k x hx
  obtain ⟨ts, htrail, hcarries⟩ := h.fromTrail _ _ x hx
  have hlhs := Position.neg_of_containsSorted hnt
  have hcross : (Step.constituent j lhs id).Crosses l f x.stop :=
    ⟨hlisted, hlhs⟩
  exact ⟨_, Trail.concat_iff.2 ⟨x.stop, htrail, hcross, rfl⟩,
    hcarries.crossConstituent id hp⟩

/-- Crossing an arc does. -/
theorem overArcs (h : Traced l g v f c) {y : Item}
    (hy : y ∈ overArcs (g.view v) l i k c) : y.FromTrail l g v f := by
  obtain ⟨x, hx, a, ha, p, hlabel, hp, rfl⟩ := (mem_overArcs _).1 hy
  obtain ⟨rfl, rfl⟩ := h.placed i k x hx
  obtain ⟨ts, htrail, hcarries⟩ := h.fromTrail _ _ x hx
  obtain ⟨n, hn⟩ := List.mem_iff_getElem?.1 ha
  have hcross : (Step.arc n a).Crosses l f x.stop :=
    ⟨hn, Symbol.isNonterminal_eq_false.1 hlabel⟩
  exact ⟨_, Trail.concat_iff.2 ⟨x.stop, htrail, hcross, rfl⟩,
    hcarries.crossArc n hp⟩

theorem crossSplits (h : Traced l g v f c) (i j : Nat) (ks : List Nat) :
    Traced l g v f (crossSplits (g.view v) f i j c ks) := by
  unfold ItemChart.crossSplits
  induction ks generalizing c with
  | nil => exact h
  | cons k ks ih => exact ih (h.addAll fun _ hx => h.overConstituents hx)

theorem expand (h : Traced l g v f c) (i j : Nat) :
    Traced l g v f (c.expand (g.view v) l f i j) := by
  unfold ItemChart.expand
  split
  · exact h
  · have hsplits := h.crossSplits i j (List.range' (i + 1) (j - (i + 1)))
    exact hsplits.addAll fun _ hx => hsplits.overArcs hx

theorem start (h : Traced l g v f c) (i j : Nat) :
    Traced l g v f (c.start (g.view v) f i j) :=
  h.addAll fun _ hx => h.overConstituents hx

-- ============================================================ any calls

/-- Any calls leave a chart whose items are traced and a sound forest. -/
theorem foldl_run (h : Traced l g v f c) {given : Nat → List Derivation}
    (hf : f.Holds given) (calls : List ChartCall) :
    let s := calls.foldl (ChartCall.run (g.view v) l) (c, f)
    Traced l g v s.2 s.1 ∧ s.2.Sound := by
  induction calls generalizing c f given with
  | nil => exact ⟨h, hf.sound⟩
  | cons call calls ih =>
      cases call with
      | expand i j => exact ih (h.expand i j) hf
      | start i j => exact ih (h.start i j) hf
      | onForest call =>
          obtain ⟨hext, hholds⟩ := hf.run call
          exact ih (h.mono hext) hholds

end Traced

/-- Every item traces back to the seed of its row, whatever the order of
calls. An item chart of any finished grammar and any lattice, and a forest of
any size `n`, are taken through any calls. What is stored for the span from
`i` to `j` is then an item over that span, which lies in the chart, and there
is a trail from `i` to `j` with all that the item holds: the item is at the
position to which the labels of the trail lead from the root, has crossed the
constituents of the trail and no others, and has the steps of the trail and
the sum of the costs of its arcs for its path. What a trail crosses is an arc
that leaves the node at which it is and has a terminal, or a constituent of
the forest that starts there and has a nonterminal. -/
theorem items_trace_back (l : Lattice) (g : GrammarContents E) (v : Vocabulary)
    (n : Nat) (calls : List ChartCall) :
    ∃ start, ItemChart.seeded l (g.view v) = .ok start
      ∧ let s := calls.foldl (ChartCall.run (g.view v) l) (start, .empty n)
        (∀ i j, ∀ x ∈ s.1.itemsAt i j,
          x.start = i ∧ x.stop = j ∧ i ≤ j ∧ j ≤ l.nodeCount
          ∧ ∃ ts, Trail l s.2 i ts j ∧ Carries (g.view v) i j ts x)
        ∧ ∀ i j lhs id, (lhs, id) ∈ s.2.cellAt i j
            ↔ ∃ c, s.2.constituents[id]? = some c
                ∧ c.lhs = lhs ∧ c.start = i ∧ c.stop = j := by
  refine ⟨_, Charting.seeded_view g v l, ?_⟩
  obtain ⟨htraced, hsound⟩ := (Traced.seeds l g v (.empty n)).foldl_run
    (Forest.holds_empty n) calls
  refine ⟨fun i j x hx => ?_, fun i j lhs id => hsound.listed⟩
  obtain ⟨hstart, hstop⟩ := htraced.placed i j x hx
  obtain ⟨ts, htrail, hcarries⟩ := htraced.fromTrail i j x hx
  have hspan : i ≤ j ∧ j ≤ l.nodeCount := by
    by_contra hspan
    rw [← htraced.limit_eq] at hspan
    rw [itemsAt_eq_nil hspan] at hx
    cases hx
  rw [hstart, hstop] at htrail hcarries
  exact ⟨hstart, hstop, hspan.1, hspan.2, ts, htrail, hcarries⟩

end LatticeParsing
