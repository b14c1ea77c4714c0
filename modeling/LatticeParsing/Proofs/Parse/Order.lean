/-
The order in which a parse takes its spans.

`Parse.order` lists the spans in the order of the two loops, and a parse is
a walk along this list (`parse_eq`). Spans ascend by width, and by start
within a width (`order_ascends`). So a span is never followed by a span
within it (`order_pairwise`): what a span reads, which lies within it, is
complete when the span is taken, and is left alone afterwards.
-/
import LatticeParsing.Chart.Run
import Mathlib.Data.List.Basic

namespace LatticeParsing.Parse

-- =============================================================== spans

/-- The span `t` lies within the span `s`. -/
def Within (t s : Nat × Nat) : Prop := s.1 ≤ t.1 ∧ t.2 ≤ s.2

instance (t s : Nat × Nat) : Decidable (Within t s) :=
  inferInstanceAs (Decidable (_ ∧ _))

theorem Within.refl (s : Nat × Nat) : Within s s :=
  ⟨Nat.le_refl _, Nat.le_refl _⟩

/-- The spans of one width, by ascending start. -/
def spansOfWidth (l : Lattice) (w : Nat) : List (Nat × Nat) :=
  (List.range (l.sourceLength + 1 - w)).map fun i => (i, i + w)

/-- All spans in the order in which they are taken. -/
def order (l : Lattice) : List (Nat × Nat) :=
  (widths l).flatMap (spansOfWidth l)

/-- Every span of the lattice that is not empty is taken. -/
theorem mem_order {l : Lattice} {i j : Nat} :
    (i, j) ∈ order l ↔ i < j ∧ j ≤ l.sourceLength := by
  simp only [order, widths, spansOfWidth, List.mem_flatMap,
    List.mem_range'_1, List.mem_map, List.mem_range, Prod.mk.injEq]
  constructor
  · intro h
    obtain ⟨w, hw, k, hk, rfl, rfl⟩ := h
    omega
  · intro h
    obtain ⟨hij, hj⟩ := h
    exact ⟨j - i, by omega, i, by omega, rfl, by omega⟩

/-- Whether a span is taken before another: it is narrower, or as wide and
starts further to the left. -/
def Earlier (s t : Nat × Nat) : Prop :=
  s.2 - s.1 < t.2 - t.1 ∨ s.2 - s.1 = t.2 - t.1 ∧ s.1 < t.1

theorem order_ascends (l : Lattice) : (order l).Pairwise Earlier := by
  unfold order
  rw [List.pairwise_flatMap]
  constructor
  · intro w _
    unfold spansOfWidth
    rw [List.pairwise_map]
    refine List.pairwise_lt_range.imp fun hlt => ?_
    simp only [Earlier]
    omega
  · have hwidths : (widths l).Pairwise (· < ·) := List.pairwise_lt_range'
    refine hwidths.imp fun hlt s hs t ht => ?_
    obtain ⟨i, -, rfl⟩ := List.mem_map.1 hs
    obtain ⟨k, -, rfl⟩ := List.mem_map.1 ht
    simp only [Earlier]
    omega

/-- No span is followed by one that lies within it. -/
theorem order_pairwise (l : Lattice) :
    (order l).Pairwise fun s t => ¬ Within t s := by
  refine (order_ascends l).imp_of_mem fun {s t} hs _ hearlier hwithin => ?_
  have hspan := (mem_order.1 hs).1
  simp only [Earlier, Within] at hearlier hwithin
  omega

/-- No span is taken twice. -/
theorem order_nodup (l : Lattice) : (order l).Nodup := by
  refine (order_pairwise l).imp ?_
  intro s t hst heq
  subst heq
  exact hst (.refl s)

-- =============================================================== steps

/-- The state after a span has been taken. -/
def next (l : Lattice) (p : Parse) (s : Nat × Nat) : Parse :=
  (takeSpan l s.1 s.2 p { width := s.2 - s.1 }).1

/-- The counts do not matter to the state. -/
theorem takeSpan_fst (l : Lattice) (i j : Nat) (p : Parse) (n : PassCounts) :
    (takeSpan l i j p n).1 = next l p (i, j) := rfl

theorem takeWidth_fst (l : Lattice) (w : Nat) (p : Parse) :
    (takeWidth l w p).1 = (spansOfWidth l w).foldl (next l) p := by
  have key : ∀ (is : List Nat) (p : Parse) (n : PassCounts),
      (is.foldl (fun s i => takeSpan l i (i + w) s.1 s.2) (p, n)).1
        = (is.map fun i => (i, i + w)).foldl (next l) p := by
    intro is
    induction is with
    | nil => intro p n; rfl
    | cons i is ih =>
        intro p n
        rw [List.foldl_cons, List.map_cons, List.foldl_cons,
          ← takeSpan_fst l i (i + w) p n]
        exact ih _ _
  exact key ..

/-- What holds at the start of a width, and stays true when a span of that width
is taken, holds when all of them have been taken. -/
theorem takeWidth_induction {l : Lattice} {w : Nat} {p : Parse}
    {I : Parse × PassCounts → Prop} (hstart : I (p, { width := w }))
    (hspan : ∀ i s, i + w ≤ l.sourceLength → I s →
      I (takeSpan l i (i + w) s.1 s.2)) : I (takeWidth l w p) := by
  have key : ∀ (is : List Nat) (s : Parse × PassCounts),
      (∀ i ∈ is, i + w ≤ l.sourceLength) → I s →
      I (is.foldl (fun s i => takeSpan l i (i + w) s.1 s.2) s) := by
    intro is
    induction is with
    | nil => exact fun s _ hs => hs
    | cons i is ih =>
        intro s his hs
        rw [List.forall_mem_cons] at his
        exact ih _ his.2 (hspan i s his.1 hs)
  refine key _ _ (fun i hi => ?_) hstart
  have hi := List.mem_range.1 hi
  omega

theorem takeWidths_fst (l : Lattice) (ws : List Nat) (p : Parse) :
    (takeWidths l ws p).1
      = (ws.flatMap (spansOfWidth l)).foldl (next l) p := by
  induction ws generalizing p with
  | nil => rfl
  | cons w ws ih =>
      rw [List.flatMap_cons, List.foldl_append, ← takeWidth_fst, ← ih]
      rfl

/-- A parse begins with seeded charts and takes the spans in order. -/
theorem parse_eq (l : Lattice) (gs : List GrammarView) (goal : Symbol) :
    l.parse gs goal = (begin l gs).map fun start =>
      result l goal start ((order l).foldl (next l) start)
        (takeWidths l (widths l) start).2 := by
  unfold Lattice.parse
  cases begin l gs with
  | error e => rfl
  | ok start =>
      show Except.ok (result l goal start
        (takeWidths l (widths l) start).1 _) = _
      rw [takeWidths_fst]
      rfl

/-- What taking a span is made of: the charts are expanded, their items
completed, the new constituents closed under rules with a single
nonterminal, and the charts started. -/
theorem next_eq (l : Lattice) (p : Parse) (i j : Nat) :
    next l p (i, j) =
      let expanded := mapCharts (fun g c => c.expand g l p.forest i j) p.charts
      let completed := recordAll i j p.forest (completions l expanded i j)
      let closed := closeUnary l expanded i j completed.forest completed.made
      ⟨mapCharts (fun g c => c.start g closed.forest i j) expanded,
        closed.forest⟩ :=
  rfl

end LatticeParsing.Parse
