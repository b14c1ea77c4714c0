/-
Schedules of the calls on an item chart.

A chart does not order its calls. It asks that a span is expanded after the
spans with the same start and an earlier end, and nothing else: rows may be
taken in turns, and starting may wait for as long as nothing behind it is
expanded. What is shown here is that all orders that keep to this fill the
chart alike, over a forest that stays as it is.

In such an order nothing that comes later adds to a cell that a call has read
(`InOrder.settled`). So every call may as well be taken to read the cells of
the chart in which the run ends, and a cell of that chart holds what it held
at first and what each call adds to it (`itemsAt_foldl`). Of two orders the
calls are the same, so the cells of a row agree one after the other, from the
earliest end on (`InOrder.perm`).
-/
import LatticeParsing.Proofs.Chart.SpanCalls
import LatticeParsing.Proofs.Parse.Setup

namespace LatticeParsing

open ItemChart

variable {E : PatternEngine} {g : GrammarView} {l : Lattice} {f : Forest}
  {c : ItemChart} {calls calls' : List SpanCall} {x y : SpanCall}
  {a b i j k : Nat}

-- ================================================================ order

/-- Whether the span of a call is one of the lattice that is not empty. -/
def SpanCall.Proper (l : Lattice) (call : SpanCall) : Prop :=
  call.span.1 < call.span.2 ∧ call.span.2 ≤ l.sourceLength

instance (l : Lattice) (call : SpanCall) : Decidable (call.Proper l) :=
  inferInstanceAs (Decidable (_ ∧ _))

theorem SpanCall.Proper.within (h : x.Proper l)
    (hlimit : c.limit = l.nodeCount) : x.Within c.limit := by
  obtain ⟨hlt, hle⟩ := h
  have hnodes := l.nodeCount_eq
  cases x with
  | expand i j => exact ⟨hlt, hlimit ▸ hnodes ▸ Nat.le_succ_of_le hle⟩
  | start i j =>
      exact ⟨Nat.le_of_lt hlt, hlimit ▸ hnodes ▸ Nat.le_succ_of_le hle⟩

/-- An order of calls as a chart asks for it. Every span of the lattice that
is not empty is expanded once and started once. Both are done over a span
before those with the same start and a later end are expanded. -/
structure InOrder (l : Lattice) (calls : List SpanCall) : Prop where
  once : ∀ call, calls.count call = if call.Proper l then 1 else 0
  ordered : ∀ i k j, i < k → k < j → j ≤ l.sourceLength →
    [.expand i k, .expand i j].Sublist calls
      ∧ [.start i k, .expand i j].Sublist calls

/-- In a list without repetition, of two elements one comes first. -/
theorem not_sublist_swap {α : Type} {x y : α} {xs : List α}
    (hnodup : xs.Nodup) (h : [x, y].Sublist xs) : ¬ [y, x].Sublist xs := by
  induction xs with
  | nil => cases h
  | cons z zs ih =>
      rw [List.nodup_cons] at hnodup
      intro hswap
      cases h with
      | cons _ h =>
          cases hswap with
          | cons _ hswap => exact ih hnodup.2 h hswap
          | cons_cons _ _ => exact hnodup.1 (h.subset (by simp))
      | cons_cons _ h =>
          cases hswap with
          | cons _ hswap => exact hnodup.1 (hswap.subset (by simp))
          | cons_cons _ _ => exact hnodup.1 (h.subset (by simp))

namespace InOrder

theorem mem_iff (h : InOrder l calls) : x ∈ calls ↔ x.Proper l := by
  rw [← List.count_pos_iff, h.once]
  split <;> simp_all

theorem nodup (h : InOrder l calls) : calls.Nodup := by
  rw [List.nodup_iff_count]
  intro x
  rw [h.once]
  split <;> omega

theorem of_mem_iff (hnodup : calls.Nodup)
    (hmem : ∀ x, x ∈ calls ↔ x.Proper l)
    (hordered : ∀ i k j, i < k → k < j → j ≤ l.sourceLength →
      [.expand i k, .expand i j].Sublist calls
        ∧ [.start i k, .expand i j].Sublist calls) : InOrder l calls where
  once := by
    intro x
    split
    case isTrue hx => exact hnodup.count.trans (if_pos ((hmem x).2 hx))
    case isFalse hx => exact List.count_eq_zero.2 fun hin => hx ((hmem x).1 hin)
  ordered := hordered

/-- Two orders are orders of the same calls. -/
theorem perm_calls (h : InOrder l calls) (h' : InOrder l calls') :
    calls.Perm calls' := by
  rw [List.perm_iff_count]
  intro x
  rw [h.once, h'.once]

/-- What is read has been settled: no later call adds to it. -/
theorem settled (h : InOrder l calls) :
    calls.Pairwise fun x y => ∀ a b, x.Reads a b → ¬ y.Adds a b := by
  rw [List.pairwise_iff_forall_sublist]
  intro x y hxy a b hread hadd
  have hswap := not_sublist_swap h.nodup hxy
  obtain ⟨hxlt, hxle⟩ := h.mem_iff.1 (hxy.subset (by simp : x ∈ [x, y]))
  obtain ⟨hylt, hyle⟩ := h.mem_iff.1 (hxy.subset (by simp : y ∈ [x, y]))
  cases x with
  | expand i j =>
      obtain ⟨rfl, hb⟩ := hread
      cases y with
      | expand i' j' =>
          obtain ⟨rfl, hj'⟩ := hadd
          exact hswap (h.ordered _ _ _ hylt (Nat.lt_of_le_of_lt hj' hb) hxle).1
      | start i' j' =>
          obtain ⟨rfl, rfl⟩ := hadd
          exact hswap (h.ordered _ _ _ hylt hb hxle).2
  | start i j =>
      -- the cell of an empty span lies before all to which items are added
      obtain ⟨rfl, rfl⟩ := hread
      cases y with
      | expand i' j' =>
          obtain ⟨rfl, hj'⟩ := hadd
          exact absurd hylt (Nat.not_lt.2 hj')
      | start i' j' =>
          obtain ⟨rfl, rfl⟩ := hadd
          exact absurd hylt (Nat.lt_irrefl _)

end InOrder

-- ================================================================= runs

/-- A call does not add to what it reads. -/
theorem SpanCall.Reads.not_adds (hread : x.Reads a b)
    (hspan : x.span.1 < x.span.2) : ¬ x.Adds a b := by
  cases x with
  | expand i j => exact fun hadd => absurd hread.2 (Nat.not_lt.2 hadd.2)
  | start i j =>
      intro hadd
      have heq : i = j := hread.2.symm.trans hadd.2
      exact absurd hspan (Nat.not_lt.2 (Nat.le_of_eq heq.symm))

/-- A call reads its own row, up to the end of its span. -/
theorem SpanCall.Reads.lt (hread : x.Reads a b)
    (hspan : x.span.1 < x.span.2) : b < x.span.2 := by
  cases x with
  | expand i j => exact hread.2
  | start i j =>
      have heq : b = i := hread.2
      rw [heq]
      exact hspan

/-- Calls of which no later one adds to what an earlier one reads leave a
cell with what it held and what every call adds to it, all of them reading
the chart in which the run ends. -/
theorem itemsAt_foldl (hc : c.Placed) (hlimit : c.limit = l.nodeCount)
    (hproper : ∀ x ∈ calls, x.Proper l)
    (hsettled : calls.Pairwise fun x y => ∀ a b, x.Reads a b → ¬ y.Adds a b) :
    (calls.foldl (SpanCall.run g l f) c).itemsAt a b
      = c.itemsAt a b ++ calls.flatMap
          (SpanCall.added g l f (calls.foldl (SpanCall.run g l f) c) a b) := by
  induction calls generalizing c a b with
  | nil => simp
  | cons x xs ih =>
      rw [List.pairwise_cons] at hsettled
      have hx := hproper x (List.mem_cons_self ..)
      have hwithin := hx.within hlimit
      have hrest : ∀ a b,
          (xs.foldl (SpanCall.run g l f) (x.run g l f c)).itemsAt a b
            = (x.run g l f c).itemsAt a b ++ xs.flatMap (SpanCall.added g l f
                (xs.foldl (SpanCall.run g l f) (x.run g l f c)) a b) :=
        fun a b => ih (SpanCall.placed_run hc)
          (SpanCall.limit_run.trans hlimit)
          (fun y hy => hproper y (List.mem_cons_of_mem _ hy)) hsettled.2
      -- what `x` reads is the same before it and at the end
      have hread : ∀ m, x.Reads x.span.1 m → c.itemsAt x.span.1 m
          = (xs.foldl (SpanCall.run g l f) (x.run g l f c)).itemsAt
              x.span.1 m := by
        intro m hm
        have hlater : xs.flatMap (SpanCall.added g l f
              (xs.foldl (SpanCall.run g l f) (x.run g l f c)) x.span.1 m)
            = [] := by
          rw [List.flatMap_eq_nil_iff]
          exact fun y hy => SpanCall.added_eq_nil (hsettled.1 y hy _ _ hm)
        rw [hrest, hlater, SpanCall.itemsAt_run hc hlimit.ge hwithin,
          SpanCall.added_eq_nil (hm.not_adds hx.1), List.append_nil,
          List.append_nil]
      rw [List.foldl_cons, List.flatMap_cons, hrest,
        SpanCall.itemsAt_run hc hlimit.ge hwithin,
        SpanCall.added_congr hwithin (.of_reads hx.1 hread), List.append_assoc]

theorem limit_foldl (calls : List SpanCall) :
    (calls.foldl (SpanCall.run g l f) c).limit = c.limit := by
  induction calls generalizing c with
  | nil => rfl
  | cons x xs ih => exact ih.trans SpanCall.limit_run

theorem counted_foldl (hc : c.Counted) (calls : List SpanCall) :
    (calls.foldl (SpanCall.run g l f) c).Counted := by
  induction calls generalizing c with
  | nil => exact hc
  | cons x xs ih => exact ih (SpanCall.counted_run hc)

/-- Two orders of the calls leave the same items in every cell. -/
theorem InOrder.perm (h : InOrder l calls) (h' : InOrder l calls')
    (hc : c.Placed) (hlimit : c.limit = l.nodeCount) :
    ((calls.foldl (SpanCall.run g l f) c).itemsAt a b).Perm
      ((calls'.foldl (SpanCall.run g l f) c).itemsAt a b) := by
  -- a cell is filled from those of its row with an earlier end
  induction b using Nat.strongRecOn with
  | ind b ih =>
      rw [itemsAt_foldl hc hlimit (fun _ => h.mem_iff.1) h.settled,
        itemsAt_foldl hc hlimit (fun _ => h'.mem_iff.1) h'.settled]
      refine List.Perm.append_left _ ((h.perm_calls h').flatMap fun x hx => ?_)
      by_cases hadd : x.Adds a b
      · have hx := h.mem_iff.1 hx
        have hrow : x.span.1 = a ∧ x.span.2 ≤ b := by
          cases x with
          | expand i j => exact ⟨hadd.1.symm, hadd.2⟩
          | start i j => exact ⟨hadd.1.symm, Nat.le_of_eq hadd.2.symm⟩
        refine SpanCall.added_perm hx.1 fun m hm => ?_
        have hlt := hm.lt hx.1
        rw [hrow.1]
        exact ih m (by omega)
      · rw [SpanCall.added_eq_nil hadd, SpanCall.added_eq_nil hadd]

/-- The order in which an item chart is filled does not matter where it
keeps to what the chart asks for. A chart of any finished grammar and any
lattice has been seeded and is filled over a forest that stays as it is.
Whatever two orders of calls there are, each of which expands and starts
every span of the lattice that is not empty once, and expands a span after
both calls on those with the same start and an earlier end, the charts in
which they end hold the same items in every cell, as often, with their
positions, antecedents and paths, and count as many items. -/
theorem orders_fill_alike (l : Lattice) (g : GrammarContents E) (v : Vocabulary)
    (f : Forest) {calls calls' : List SpanCall} (h : InOrder l calls)
    (h' : InOrder l calls') :
    ∃ start, ItemChart.seeded l (g.view v) = .ok start
      ∧ (∀ i j,
          ((calls.foldl (SpanCall.run (g.view v) l f) start).itemsAt i j).Perm
            ((calls'.foldl (SpanCall.run (g.view v) l f) start).itemsAt i j))
      ∧ (calls.foldl (SpanCall.run (g.view v) l f) start).itemCount
        = (calls'.foldl (SpanCall.run (g.view v) l f) start).itemCount := by
  refine ⟨_, Charting.seeded_view g v l, ?_⟩
  have hplaced := (placed_empty l.nodeCount).addAll
    ((List.range l.nodeCount).map (Charting.seedItem g))
  have hlimit := limit_addAll (empty l.nodeCount)
    ((List.range l.nodeCount).map (Charting.seedItem g))
  have hcounted := (counted_empty l.nodeCount).addAll
    ((List.range l.nodeCount).map (Charting.seedItem g))
  have hcells := fun i j => h.perm (g := g.view v) (f := f) (a := i) (b := j)
    h' hplaced hlimit
  refine ⟨hcells, ?_⟩
  exact (counted_foldl hcounted calls).eq_of_length
    (counted_foldl hcounted calls') ((limit_foldl calls).trans
      (limit_foldl calls').symm) fun i j => (hcells i j).length_eq

/-- Two orders for a lattice of two words, by rows with each span started
right after it has been expanded, and with all that may come first put first,
over a forest with a constituent over the second word. -/
theorem orders_fill_alike_two_words :
    ∃ calls calls', InOrder (.ofSentence [1, 2]) calls
      ∧ InOrder (.ofSentence [1, 2]) calls' ∧ calls ≠ calls'
      ∧ ∃ start, ItemChart.seeded (.ofSentence [1, 2])
          ((GrammarContents.mk (E := .standard) 0 {}
            [⟨-1, [2], ""⟩, ⟨-2, [1, -1], ""⟩, ⟨-3, [-1, 2], ""⟩] {}).view {})
            = .ok start
        ∧ ((calls.foldl (SpanCall.run ((GrammarContents.mk (E := .standard) 0 {}
              [⟨-1, [2], ""⟩, ⟨-2, [1, -1], ""⟩, ⟨-3, [-1, 2], ""⟩] {}).view {})
              (.ofSentence [1, 2])
              ((Forest.empty 3).listNew ⟨0, -1, 1, 2, #[]⟩ 0))
              start).itemsAt 0 2).Perm
          ((calls'.foldl (SpanCall.run
              ((GrammarContents.mk (E := .standard) 0 {}
              [⟨-1, [2], ""⟩, ⟨-2, [1, -1], ""⟩, ⟨-3, [-1, 2], ""⟩] {}).view {})
              (.ofSentence [1, 2])
              ((Forest.empty 3).listNew ⟨0, -1, 1, 2, #[]⟩ 0))
              start).itemsAt 0 2) := by
  have hlength : (Lattice.ofSentence [1, 2]).sourceLength = 2 := rfl
  have hrows : InOrder (.ofSentence [1, 2])
      [.expand 0 1, .start 0 1, .expand 0 2, .start 0 2, .expand 1 2,
        .start 1 2] := by
    refine .of_mem_iff (by decide) (fun x => ?_) fun i k j hik hkj hj => ?_
    · cases x <;> simp [SpanCall.Proper, SpanCall.span, hlength] <;> omega
    · obtain ⟨rfl, rfl, rfl⟩ : i = 0 ∧ k = 1 ∧ j = 2 := by omega
      decide
  have hearly : InOrder (.ofSentence [1, 2])
      [.expand 1 2, .start 0 2, .start 1 2, .start 0 1, .expand 0 1,
        .expand 0 2] := by
    refine .of_mem_iff (by decide) (fun x => ?_) fun i k j hik hkj hj => ?_
    · cases x <;> simp [SpanCall.Proper, SpanCall.span, hlength] <;> omega
    · obtain ⟨rfl, rfl, rfl⟩ : i = 0 ∧ k = 1 ∧ j = 2 := by omega
      decide
  obtain ⟨start, hstart, hcells, -⟩ := orders_fill_alike (.ofSentence [1, 2])
    (GrammarContents.mk (E := .standard) 0 {}
      [⟨-1, [2], ""⟩, ⟨-2, [1, -1], ""⟩, ⟨-3, [-1, 2], ""⟩] {}) {}
    ((Forest.empty 3).listNew ⟨0, -1, 1, 2, #[]⟩ 0) hrows hearly
  exact ⟨_, _, hrows, hearly, by decide, start, hstart, hcells 0 2⟩

end LatticeParsing
