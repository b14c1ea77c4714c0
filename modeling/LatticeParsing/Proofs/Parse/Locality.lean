/-
Calls on an item chart are local.

A chart may have come to its state in any way: seeded for a grammar, and then
changed by calls of both kinds over any spans, in any order, each with a
forest of its own, and with more words spelled from call to call
(`ItemChart.Reached`). What every such state keeps is that items stand in the
cells of their spans, that the table has a cell for every span up to the
number of the nodes, and that the count is that of the items in the cells.

From these alone it follows that a call reads no more than it has to do with.
Expanding adds to the row that it reads from, but what it adds ends at or
behind the end of its span, and what it reads ends before.
-/
import LatticeParsing.Proofs.Chart.ForestCells
import LatticeParsing.Proofs.Chart.SpanCalls
import LatticeParsing.Proofs.Parse.Setup

namespace LatticeParsing

variable {E : PatternEngine} {l : Lattice} {g : Grammar} {c c' : ItemChart}

-- =============================================================== states

namespace ItemChart

/-- The states of item charts of one lattice and one grammar. -/
inductive Reached (l : Lattice) (g : Grammar) : ItemChart → Prop
  | seeded {v : Vocabulary} {c : ItemChart}
      (h : ItemChart.seeded l (g.view v) = .ok c) : Reached l g c
  | run {c : ItemChart} (h : Reached l g c) (v : Vocabulary) (f : Forest)
      (call : SpanCall) : Reached l g (call.run (g.view v) l f c)

/-- A seeded chart is made by adding items to one without any. -/
theorem seeded_eq {view : GrammarView}
    (h : ItemChart.seeded l view = .ok c) :
    ∃ items, c = (empty l.nodeCount).addAll items := by
  unfold ItemChart.seeded at h
  cases hseeds : seeds l view (List.range l.nodeCount) with
  | error e =>
      rw [hseeds] at h
      cases h
  | ok items =>
      rw [hseeds] at h
      injection h with h
      exact ⟨items, h.symm⟩

namespace Reached

theorem placed (h : c.Reached l g) : c.Placed := by
  induction h with
  | seeded h =>
      obtain ⟨items, rfl⟩ := seeded_eq h
      exact (placed_empty _).addAll items
  | run _ v f call ih => exact SpanCall.placed_run ih

theorem limit_eq (h : c.Reached l g) : c.limit = l.nodeCount := by
  induction h with
  | seeded h =>
      obtain ⟨items, rfl⟩ := seeded_eq h
      exact limit_addAll _ items
  | run _ v f call ih => exact SpanCall.limit_run.trans ih

theorem counted (h : c.Reached l g) : c.Counted := by
  induction h with
  | seeded h =>
      obtain ⟨items, rfl⟩ := seeded_eq h
      exact (counted_empty _).addAll items
  | run _ v f call ih => exact SpanCall.counted_run ih

end Reached

end ItemChart

-- ============================================================= locality

namespace SpanCall

variable {view : GrammarView} {f f' : Forest} {call : SpanCall}

/-- A call adds to every cell behind what stands there, and to no cell but
those to which it may add. -/
theorem exists_itemsAt_run (h : c.Placed) (hlimit : c.limit = l.nodeCount)
    (a b : Nat) :
    ∃ new, (call.run view l f c).itemsAt a b = c.itemsAt a b ++ new
      ∧ (¬ call.Adds a b → new = []) := by
  by_cases hwithin : call.Within c.limit
  · exact ⟨_, itemsAt_run h hlimit.ge hwithin, added_eq_nil⟩
  · refine ⟨[], ?_, fun _ => rfl⟩
    rw [run_of_not_within h hwithin, List.append_nil]

/-- Where two charts agree in what a call has to do with, it adds the same to
both. -/
theorem exists_itemsAt_run_both (h : c.Placed) (h' : c'.Placed)
    (hlimit : c.limit = l.nodeCount) (hlimit' : c'.limit = l.nodeCount)
    (hread : call.ReadAlike c c' f f') (a b : Nat) :
    ∃ new, (call.run view l f c).itemsAt a b = c.itemsAt a b ++ new
      ∧ (call.run view l f' c').itemsAt a b = c'.itemsAt a b ++ new := by
  have hsize : c'.limit = c.limit := hlimit'.trans hlimit.symm
  by_cases hwithin : call.Within c.limit
  · refine ⟨_, itemsAt_run h hlimit.ge hwithin, ?_⟩
    rw [itemsAt_run h' hlimit'.ge (hsize ▸ hwithin), added_congr hwithin hread]
  · refine ⟨[], ?_, ?_⟩
    · rw [run_of_not_within h hwithin, List.append_nil]
    · rw [run_of_not_within h' (hsize ▸ hwithin), List.append_nil]

end SpanCall

/-- The calls on item charts are local. Let two charts of one lattice and one
grammar be in any states that they can come to, and let each be given a
forest.

Where they agree in what a call has to do with, the call reports the same
count for both and adds the same items, in the same order, to every cell. For
expanding `i` to `j` these are the items over `i` to `k` and the constituents
over `k` to `j`, for all `k` between `i` and `j`, and the items over the empty
span at `i` if `j` is the next node; for starting, the items over the empty
span at `i` and the constituents over `i` to `j`.

In whatever states the charts are, a call only adds to the ends of cells. It
leaves all of them as they are but, for expanding, those from `i` to `j` and
beyond, and for starting, that from `i` to `j`. Where the span is outside of
the table, and for expanding where it is empty too, a call changes nothing and
reports nothing. -/
theorem calls_are_local (h : c.Reached l g) (h' : c'.Reached l g)
    (v : Vocabulary) (f f' : Forest) (call : SpanCall) :
    (call.ReadAlike c c' f f' →
        call.count (g.view v) l f c = call.count (g.view v) l f' c'
          ∧ ∀ a b, ∃ new,
            (call.run (g.view v) l f c).itemsAt a b = c.itemsAt a b ++ new
              ∧ (call.run (g.view v) l f' c').itemsAt a b
                = c'.itemsAt a b ++ new)
      ∧ (∀ a b, c.itemsAt a b <+: (call.run (g.view v) l f c).itemsAt a b)
      ∧ (∀ a b, ¬ call.Adds a b →
          (call.run (g.view v) l f c).itemsAt a b = c.itemsAt a b)
      ∧ (¬ call.Within l.nodeCount →
          call.run (g.view v) l f c = c
            ∧ call.count (g.view v) l f c = 0) := by
  have hlimit := h.limit_eq
  have hlimit' := h'.limit_eq
  have hsize : c'.limit = c.limit := hlimit'.trans hlimit.symm
  have hcell : ∀ a b, ∃ new,
      (call.run (g.view v) l f c).itemsAt a b = c.itemsAt a b ++ new
        ∧ (¬ call.Adds a b → new = []) :=
    fun a b => SpanCall.exists_itemsAt_run h.placed hlimit a b
  refine ⟨fun hread => ⟨?_, ?_⟩, fun a b => ?_, fun a b hadds => ?_,
    fun hout => ?_⟩
  · by_cases hwithin : call.Within c.limit
    · exact SpanCall.count_congr h.placed h'.placed h.counted h'.counted
        hlimit.ge hsize hwithin hread
    · rw [SpanCall.count_of_not_within h.placed hwithin,
        SpanCall.count_of_not_within h'.placed (hsize ▸ hwithin)]
  · exact SpanCall.exists_itemsAt_run_both h.placed h'.placed hlimit hlimit'
      hread
  · obtain ⟨new, hnew, -⟩ := hcell a b
    exact ⟨new, hnew.symm⟩
  · obtain ⟨new, hnew, hnil⟩ := hcell a b
    rw [hnew, hnil hadds, List.append_nil]
  · rw [← hlimit] at hout
    exact ⟨SpanCall.run_of_not_within h.placed hout,
      SpanCall.count_of_not_within h.placed hout⟩

/-- Two charts of a sentence of two words that agree where the expansion of
the whole sentence reads: the second one has also been expanded over the
second word, and its forest has a constituent over the first. -/
theorem calls_are_local_two_words :
    ∃ g : Grammar, ∃ c c' : ItemChart, ∃ f f' : Forest,
      c.Reached (.ofSentence [1, 2]) g ∧ c'.Reached (.ofSentence [1, 2]) g
        ∧ (SpanCall.expand 0 2).ReadAlike c c' f f'
        ∧ (c.itemsAt 1 2).length = 0 ∧ (c'.itemsAt 1 2).length = 1
        ∧ f.cellAt 0 1 = [] ∧ f'.cellAt 0 1 = [(-3, 1)]
        ∧ (SpanCall.expand 0 2).count (g.view {}) (.ofSentence [1, 2]) f c = 1
        ∧ (SpanCall.expand 0 2).count (g.view {}) (.ofSentence [1, 2]) f' c'
          = 1 := by
  let contents : GrammarContents .standard :=
    .mk 0 {} [⟨-1, [2], ""⟩, ⟨-2, [1, -1], ""⟩] {}
  let f : Forest := (Forest.empty 3).listNew ⟨0, -1, 1, 2, #[]⟩ 0
  let f' : Forest := f.listNew ⟨1, -3, 0, 1, #[]⟩ 0
  let start : ItemChart := (ItemChart.empty 3).addAll
    ((List.range 3).map (Charting.seedItem contents))
  let c : ItemChart := (SpanCall.expand 0 1).run (contents.view {})
    (.ofSentence [1, 2]) f start
  let c' : ItemChart := (SpanCall.expand 1 2).run (contents.view {})
    (.ofSentence [1, 2]) f c
  have hstart : start.Reached (.ofSentence [1, 2]) contents.grammar :=
    .seeded (Charting.seeded_view contents {} (.ofSentence [1, 2]))
  have hc : c.Reached (.ofSentence [1, 2]) contents.grammar :=
    hstart.run {} f (.expand 0 1)
  have hc' : c'.Reached (.ofSentence [1, 2]) contents.grammar :=
    hc.run {} f (.expand 1 2)
  have hread : (SpanCall.expand 0 2).ReadAlike c c' f f' := by
    refine ⟨fun k hk hk2 => ?_, fun hj => absurd hj (by decide)⟩
    obtain rfl : k = 1 := by omega
    have hrow : ¬ (SpanCall.expand 1 2).Adds 0 1 := by
      simp [SpanCall.Adds]
    refine ⟨((calls_are_local hc hc {} f f (.expand 1 2)).2.2.1 0 1
      hrow).symm, ?_⟩
    rw [Forest.cellAt_listNew _ _ _ _ _ (by decide) (by decide)]
    rfl
  have hone : (SpanCall.expand 0 2).count (contents.view {})
      (.ofSentence [1, 2]) f c = 1 := by
    decide +kernel
  have hitems : (c.itemsAt 1 2).length = 0 ∧ (c'.itemsAt 1 2).length = 1 := by
    decide +kernel
  have hcells : f.cellAt 0 1 = [] ∧ f'.cellAt 0 1 = [(-3, 1)] := by
    decide +kernel
  have hsame := (calls_are_local hc hc' {} f f' (.expand 0 2)).1 hread
  exact ⟨contents.grammar, c, c', f, f', hc, hc', hread, hitems.1, hitems.2,
    hcells.1, hcells.2, hone, hsame.1.symm.trans hone⟩

end LatticeParsing
