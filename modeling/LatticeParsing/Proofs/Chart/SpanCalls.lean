/-
What a call on an item chart reads and what it adds.

Two calls move the items of a chart forward over a span, expanding and
starting, and both only append to cells. Which cells they read and to which
they add is said here once for both (`SpanCall.Reads`, `SpanCall.Adds`), and
so is what they add (`itemsAt_run`). It depends on the cells that are read
and on the constituents behind them, and on nothing else: on their order for
the order of what is added (`added_congr`), and else on the items in them
alone (`added_perm`). Over spans that are not its business a call changes
nothing (`run_of_not_within`).

The count of a chart is the number of the items in its cells (`Counted`). A
call reports by how much it grows (`itemCount_run`), which is what it adds to
all cells taken together (`count_eq`).
-/
import LatticeParsing.Proofs.Chart.ItemCells
import Mathlib.Algebra.BigOperators.Group.List.Basic
import Mathlib.Data.List.Nodup
import Mathlib.Data.List.Perm.Basic

namespace LatticeParsing

-- ============================================================= counting

/-- A sum grows by one if one of its terms does. -/
theorem sum_map_succ {α : Type} {size size' : α → Nat} {x : α} {xs : List α}
    (hnodup : xs.Nodup) (hx : x ∈ xs) (hself : size' x = size x + 1)
    (hne : ∀ y, y ≠ x → size' y = size y) :
    (xs.map size').sum = (xs.map size).sum + 1 := by
  induction xs with
  | nil => cases hx
  | cons y xs ih =>
      rw [List.nodup_cons] at hnodup
      simp only [List.map_cons, List.sum_cons]
      by_cases hy : y = x
      · subst hy
        have hrest : xs.map size' = xs.map size := by
          refine List.map_congr_left fun z hz => hne z fun heq => ?_
          subst heq
          exact hnodup.1 hz
        rw [hself, hrest]
        omega
      · rcases List.mem_cons.1 hx with heq | hx
        · exact absurd heq.symm hy
        · rw [hne y hy, ih hnodup.2 hx]
          omega

namespace ItemChart

variable {g : GrammarView} {l : Lattice} {f : Forest} {c : ItemChart}

/-- The count of the chart is the number of the items in its cells. -/
def Counted (c : ItemChart) : Prop :=
  c.itemCount
    = ((Triangle.spans c.limit).map fun s => (c.itemsAt s.1 s.2).length).sum

theorem counted_empty (n : Nat) : (empty n).Counted := by
  unfold Counted
  simp only [itemsAt_empty, List.length_nil]
  rw [List.map_const', List.sum_replicate_nat]
  rfl

theorem Counted.add (h : c.Counted) (x : Item) : (c.add x).Counted := by
  unfold Counted at h ⊢
  rw [limit_add]
  by_cases hspan : x.start ≤ x.stop ∧ x.stop ≤ c.limit
  · have hcount : (c.add x).itemCount = c.itemCount + 1 := by
      unfold ItemChart.add
      rw [if_pos ((Triangle.hasSpan_iff _).2 hspan)]
    have hself := itemsAt_add x hspan.1 hspan.2
    rw [hcount, h]
    refine (sum_map_succ (Triangle.nodup_spans _)
      (Triangle.mem_spans.2 hspan) ?_ fun s hs => ?_).symm
    · rw [hself]
      simp [spanning]
    · have hother : (c.addAll [x]).itemsAt s.1 s.2 = c.itemsAt s.1 s.2 := by
        refine itemsAt_addAll_of_forall_ne fun y hy hat => hs ?_
        rw [List.mem_singleton] at hy
        subst hy
        rw [hat.1, hat.2]
      exact congrArg List.length hother
  · have hsame : c.addAll [x] = c :=
      addAll_of_forall_outside (List.forall_mem_singleton.2 hspan)
    have hstep : c.addAll [x] = c.add x := rfl
    rw [← hstep, hsame, h]

theorem Counted.addAll (h : c.Counted) (xs : List Item) :
    (c.addAll xs).Counted := by
  unfold ItemChart.addAll
  induction xs generalizing c with
  | nil => exact h
  | cons x xs ih => exact ih (h.add x)

theorem Counted.start (h : c.Counted) (i j : Nat) :
    (c.start g f i j).Counted :=
  h.addAll _

theorem Counted.crossSplits (h : c.Counted) (i j : Nat) (ks : List Nat) :
    (crossSplits g f i j c ks).Counted := by
  unfold ItemChart.crossSplits
  induction ks generalizing c with
  | nil => exact h
  | cons k ks ih => exact ih (h.addAll _)

theorem Counted.expand (h : c.Counted) (i j : Nat) :
    (c.expand g l f i j).Counted := by
  unfold ItemChart.expand
  split
  · exact h
  · exact (h.crossSplits i j _).addAll _

/-- Charts of one size that hold the same number of items in every cell have
the same count. -/
theorem Counted.eq_of_length {c' : ItemChart} (h : c.Counted)
    (h' : c'.Counted) (hlimit : c.limit = c'.limit)
    (hcells : ∀ i j, (c.itemsAt i j).length = (c'.itemsAt i j).length) :
    c.itemCount = c'.itemCount := by
  unfold Counted at h h'
  rw [h, h', hlimit]
  congr 1
  exact List.map_congr_left fun s _ => hcells s.1 s.2

-- ============================================================== reports

/-- The count grows by the items that are not dropped. -/
theorem itemCount_addAll (c : ItemChart) (xs : List Item) :
    (c.addAll xs).itemCount = c.itemCount + c.keptCount xs := by
  induction xs generalizing c with
  | nil => rfl
  | cons x xs ih =>
      have hkept : (c.add x).keptCount xs = c.keptCount xs := by
        unfold keptCount Triangle.hasSpan
        have hmax : (c.add x).cells.max = c.cells.max := limit_add c x
        rw [hmax]
      have hrest : (c.addAll (x :: xs)).itemCount
          = (c.add x).itemCount + c.keptCount xs := by
        rw [← hkept]
        exact ih (c.add x)
      rw [hrest]
      unfold ItemChart.add keptCount
      rw [List.countP_cons]
      split
      · simp only
        omega
      · rfl

theorem itemCount_crossSplits (i j : Nat) (c : ItemChart) (ks : List Nat) :
    (crossSplits g f i j c ks).itemCount
      = c.itemCount + splitCount g f i j c ks := by
  unfold ItemChart.crossSplits
  induction ks generalizing c with
  | nil => rfl
  | cons k ks ih =>
      rw [List.foldl_cons, ih, itemCount_addAll, Nat.add_assoc]
      rfl

/-- Expanding a span reports how many items it adds. -/
theorem itemCount_expand (i j : Nat) (c : ItemChart) :
    (c.expand g l f i j).itemCount
      = c.itemCount + c.expandCount g l f i j := by
  unfold ItemChart.expand expandCount
  split
  · rfl
  · rw [itemCount_addAll, itemCount_crossSplits, Nat.add_assoc]

/-- Starting rules over a span reports how many items it adds. -/
theorem itemCount_start (i j : Nat) (c : ItemChart) :
    (c.start g f i j).itemCount = c.itemCount + c.startCount g f i j :=
  itemCount_addAll c _

-- ================================================================ order

variable {c' : ItemChart} {i j k : Nat}

/-- Crossing constituents goes through the items of a cell one by one. -/
theorem overConstituents_perm (e : Bool)
    (hc : (c.itemsAt i k).Perm (c'.itemsAt i k)) :
    (overConstituents g f e i k j c).Perm (overConstituents g f e i k j c') :=
  hc.flatMap_right _

/-- Crossing arcs goes through the items of a cell one by one. -/
theorem landing_perm (hc : (c.itemsAt i k).Perm (c'.itemsAt i k)) :
    (landing g l i k j c).Perm (landing g l i k j c') := by
  unfold landing spanning overArcs
  refine List.Perm.filter _ (List.Perm.flatMap_left _ fun a _ => ?_)
  exact hc.filterMap _

end ItemChart

-- ================================================================ calls

/-- A call that moves the items of a chart forward over a span. -/
inductive SpanCall where
  | expand (i j : Nat)
  | start (i j : Nat)
  deriving DecidableEq, Repr

namespace SpanCall

open ItemChart

/-- The span of a call. -/
def span : SpanCall → Nat × Nat
  | expand i j => (i, j)
  | start i j => (i, j)

/-- The chart after a call. -/
def run (g : GrammarView) (l : Lattice) (f : Forest) (c : ItemChart) :
    SpanCall → ItemChart
  | expand i j => c.expand g l f i j
  | start i j => c.start g f i j

/-- The cells that are read: expanding reads those of the row with an
earlier end, and starting that of the empty span. -/
def Reads : SpanCall → Nat → Nat → Prop
  | expand i j, a, b => a = i ∧ b < j
  | start i _, a, b => a = i ∧ b = i

/-- The cells to which items are added: expanding adds to the cell of the
span and, over longer arcs, to those of later ends, and starting to the cell
of the span alone. -/
def Adds : SpanCall → Nat → Nat → Prop
  | expand i j, a, b => a = i ∧ j ≤ b
  | start i j, a, b => a = i ∧ b = j

/-- Whether the span of a call is one that the call acts upon in a table:
expanding passes over empty spans. -/
def Within (limit : Nat) : SpanCall → Prop
  | expand i j => i < j ∧ j ≤ limit
  | start i j => i ≤ j ∧ j ≤ limit

/-- Whether two charts, each with its own forest, agree in what a call has to
do with: expanding, in the items up to each split point and in the
constituents behind it, and, where a span has no split point, in the items
over the empty span; starting, in the items over the empty span and in the
constituents over the span. -/
def ReadAlike (c c' : ItemChart) (f f' : Forest) : SpanCall → Prop
  | expand i j =>
    (∀ k, i < k → k < j →
      c.itemsAt i k = c'.itemsAt i k ∧ f.cellAt k j = f'.cellAt k j)
      ∧ (j = i + 1 → c.itemsAt i i = c'.itemsAt i i)
  | start i j => c.itemsAt i i = c'.itemsAt i i ∧ f.cellAt i j = f'.cellAt i j

/-- How many items a call reports to have added. -/
def count (g : GrammarView) (l : Lattice) (f : Forest) (c : ItemChart) :
    SpanCall → Nat
  | expand i j => c.expandCount g l f i j
  | start i j => c.startCount g f i j

/-- The items that a call adds to a cell. -/
def added (g : GrammarView) (l : Lattice) (f : Forest) (c : ItemChart)
    (a b : Nat) : SpanCall → List Item
  | expand i j =>
    if a = i ∧ j ≤ b then
      (if b = j then
        (List.range' (i + 1) (j - (i + 1))).flatMap fun k =>
          overConstituents g f false i k j c
      else [])
        ++ landing g l i (j - 1) b c
    else []
  | start i j =>
    if a = i ∧ b = j then overConstituents g f true i i j c else []

variable {g : GrammarView} {l : Lattice} {f f' : Forest} {c c' : ItemChart}
  {call : SpanCall} {a b : Nat}

/-- A call over a span of the table appends to every cell what it adds
there. -/
theorem itemsAt_run (h : c.Placed) (hlimit : l.nodeCount ≤ c.limit)
    (hwithin : call.Within c.limit) :
    (call.run g l f c).itemsAt a b
      = c.itemsAt a b ++ call.added g l f c a b := by
  cases call with
  | expand i j =>
      obtain ⟨hij, hj⟩ := hwithin
      simp only [run, added]
      by_cases hab : a = i ∧ j ≤ b
      · obtain ⟨rfl, hjb⟩ := hab
        rw [if_pos ⟨rfl, hjb⟩]
        by_cases hbj : b = j
        · subst hbj
          rw [if_pos rfl, itemsAt_expand_self g h hij hj, List.append_assoc]
        · rw [if_neg hbj, itemsAt_expand_later g h hij hj hlimit (by omega)]
          rfl
      · rw [if_neg hab, itemsAt_expand_of_not_reached g h hab, List.append_nil]
  | start i j =>
      obtain ⟨hij, hj⟩ := hwithin
      simp only [run, added]
      by_cases hab : a = i ∧ b = j
      · obtain ⟨rfl, rfl⟩ := hab
        rw [if_pos ⟨rfl, rfl⟩, itemsAt_start_self g h hij hj]
      · rw [if_neg hab, itemsAt_start_of_ne g h hab, List.append_nil]

/-- A call over any other span changes nothing. -/
theorem run_of_not_within (h : c.Placed) (hout : ¬ call.Within c.limit) :
    call.run g l f c = c := by
  cases call with
  | expand i j =>
      have hguard : (decide (j ≤ i) || decide (c.limit < j)) = true := by
        simp only [Within, not_and_or, Nat.not_lt, Nat.not_le] at hout
        simpa using hout
      exact if_pos hguard
  | start i j =>
      refine addAll_of_forall_outside fun x hx hspan => hout ?_
      obtain ⟨rfl, rfl⟩ := h.overConstituents g hx
      exact hspan

theorem added_eq_nil (h : ¬ call.Adds a b) :
    call.added g l f c a b = [] := by
  cases call with
  | expand i j => exact if_neg h
  | start i j => exact if_neg h

/-- What is added follows from what a call has to do with. -/
theorem added_congr (hwithin : call.Within c.limit)
    (hread : call.ReadAlike c c' f f') :
    call.added g l f c a b = call.added g l f' c' a b := by
  cases call with
  | expand i j =>
      obtain ⟨hbetween, hempty⟩ := hread
      have hij : i < j := hwithin.1
      have hsplits : ((List.range' (i + 1) (j - (i + 1))).flatMap fun k =>
            overConstituents g f false i k j c)
          = (List.range' (i + 1) (j - (i + 1))).flatMap fun k =>
            overConstituents g f' false i k j c' := by
        refine List.flatMap_congr fun k hk => ?_
        have hk := List.mem_range'_1.1 hk
        obtain ⟨hitems, hcell⟩ := hbetween k (by omega) (by omega)
        exact overConstituents_congr g false hitems hcell
      -- arcs are crossed from the last split point, or from the start
      have hlast : c.itemsAt i (j - 1) = c'.itemsAt i (j - 1) := by
        by_cases hj : j = i + 1
        · subst hj
          exact hempty rfl
        · exact (hbetween (j - 1) (by omega) (by omega)).1
      simp only [added]
      rw [hsplits, landing_congr g hlast]
  | start i j =>
      simp only [added]
      rw [overConstituents_congr g true hread.1 hread.2]

/-- Charts over one forest agree in what a call has to do with if they agree
in the cells that it reads. -/
theorem ReadAlike.of_reads (hspan : call.span.1 < call.span.2)
    (hc : ∀ m, call.Reads call.span.1 m →
      c.itemsAt call.span.1 m = c'.itemsAt call.span.1 m) :
    call.ReadAlike c c' f f := by
  cases call with
  | expand i j =>
      exact ⟨fun k _ hk => ⟨hc k ⟨rfl, hk⟩, rfl⟩, fun _ => hc i ⟨rfl, hspan⟩⟩
  | start i j => exact ⟨hc i ⟨rfl, rfl⟩, rfl⟩

/-- If the cells that are read hold the same items in another order, then
the same items are added in another order. -/
theorem added_perm (hspan : call.span.1 < call.span.2)
    (hc : ∀ m, call.Reads call.span.1 m →
      (c.itemsAt call.span.1 m).Perm (c'.itemsAt call.span.1 m)) :
    (call.added g l f c a b).Perm (call.added g l f c' a b) := by
  cases call with
  | expand i j =>
      have hij : i < j := hspan
      have hread : ∀ k, k < j → (c.itemsAt i k).Perm (c'.itemsAt i k) :=
        fun k hk => hc k ⟨rfl, hk⟩
      simp only [added]
      split
      · refine List.Perm.append ?_ (landing_perm (hread (j - 1) (by omega)))
        split
        · refine List.Perm.flatMap_left _ fun k hk => ?_
          have hk := List.mem_range'_1.1 hk
          exact overConstituents_perm false (hread k (by omega))
        · exact List.Perm.refl _
      · exact List.Perm.refl _
  | start i j =>
      simp only [added]
      split
      · exact overConstituents_perm true (hc i ⟨rfl, rfl⟩)
      · exact List.Perm.refl _

theorem limit_run : (call.run g l f c).limit = c.limit := by
  cases call with
  | expand i j => exact limit_expand g l f i j c
  | start i j => exact limit_start g f i j c

theorem placed_run (h : c.Placed) : (call.run g l f c).Placed := by
  cases call with
  | expand i j => exact h.expand g l f i j
  | start i j => exact h.start g f i j

theorem counted_run (h : c.Counted) : (call.run g l f c).Counted := by
  cases call with
  | expand i j => exact h.expand i j
  | start i j => exact h.start i j

-- ============================================================== reports

theorem itemCount_run :
    (call.run g l f c).itemCount = c.itemCount + call.count g l f c := by
  cases call with
  | expand i j => exact itemCount_expand i j c
  | start i j => exact itemCount_start i j c

/-- A call reports the items that it adds to all cells taken together. -/
theorem count_eq (h : c.Placed) (hcounted : c.Counted)
    (hlimit : l.nodeCount ≤ c.limit) (hwithin : call.Within c.limit) :
    call.count g l f c = ((Triangle.spans c.limit).map fun s =>
      (call.added g l f c s.1 s.2).length).sum := by
  have hrun : (call.run g l f c).Counted := counted_run hcounted
  have hreport : (call.run g l f c).itemCount
      = c.itemCount + call.count g l f c := itemCount_run
  have hcell : ∀ s : Nat × Nat, ((call.run g l f c).itemsAt s.1 s.2).length
      = (c.itemsAt s.1 s.2).length + (call.added g l f c s.1 s.2).length := by
    intro s
    rw [itemsAt_run h hlimit hwithin, List.length_append]
  unfold Counted at hcounted hrun
  rw [hreport, limit_run, hcounted] at hrun
  simp only [hcell, List.sum_map_add] at hrun
  exact Nat.add_left_cancel hrun

/-- What a call reports follows from what it has to do with. -/
theorem count_congr (h : c.Placed) (h' : c'.Placed) (hcounted : c.Counted)
    (hcounted' : c'.Counted) (hlimit : l.nodeCount ≤ c.limit)
    (hsize : c'.limit = c.limit) (hwithin : call.Within c.limit)
    (hread : call.ReadAlike c c' f f') :
    call.count g l f c = call.count g l f' c' := by
  rw [count_eq h hcounted hlimit hwithin,
    count_eq h' hcounted' (hsize ▸ hlimit) (hsize ▸ hwithin), hsize]
  congr 1
  refine List.map_congr_left fun s _ => ?_
  rw [added_congr hwithin hread]

/-- A call that changes nothing reports nothing. -/
theorem count_of_not_within (h : c.Placed) (hout : ¬ call.Within c.limit) :
    call.count g l f c = 0 := by
  have hreport : (call.run g l f c).itemCount
      = c.itemCount + call.count g l f c := itemCount_run
  rw [run_of_not_within h hout] at hreport
  omega

end SpanCall

end LatticeParsing
