/-
What a parse counts.

Every recorded completion is counted when it is made, as a new constituent,
a new derivation or neither, and the counts are added up for the spans of
each width. What is counted is what there is in the end: taking a span of one
width adds to the forest just what it counts, and to no other width (`Adds`,
`adds_recordAll`, `adds_closeFrom`), and so do the spans of one width
(`adds_takeWidth`). As every width is taken once, the counts of its pass are
the numbers of the constituents of that width and of their derivations
(`passes_eq`).
-/
import LatticeParsing.Proofs.Chart.ForestCalls
import LatticeParsing.Proofs.Parse.Charting

namespace LatticeParsing

-- =============================================================== widths

namespace Forest

/-- The sum of the sizes of constituents over spans whose width has a
property. -/
def sumAt (f : Forest) (size : Constituent → Nat) (p : Nat → Bool) : Nat :=
  (f.constituents.toList.map fun c =>
    if p (c.stop - c.start) then size c else 0).sum

/-- How many constituents stand over spans whose width has a property. -/
def madeAt (f : Forest) (p : Nat → Bool) : Nat := f.sumAt (fun _ => 1) p

/-- How many derivations they have. -/
def derivedAt (f : Forest) (p : Nat → Bool) : Nat :=
  f.sumAt (·.derivations.size) p

/-- A forest has `m` more constituents than another and `n` more derivations,
all of them over spans of width `w`. -/
structure Adds (w m n : Nat) (f f' : Forest) : Prop where
  made : ∀ p, f'.madeAt p = f.madeAt p + if p w then m else 0
  derived : ∀ p, f'.derivedAt p = f.derivedAt p + if p w then n else 0

namespace Adds

variable {f f' f'' : Forest} {w m m' n n' : Nat}

theorem refl (w : Nat) (f : Forest) : Adds w 0 0 f f :=
  ⟨fun _ => by simp, fun _ => by simp⟩

theorem trans (h : Adds w m n f f') (h' : Adds w m' n' f' f'') :
    Adds w (m + m') (n + n') f f'' where
  made := by
    intro p
    rw [h'.made, h.made]
    split <;> omega
  derived := by
    intro p
    rw [h'.derived, h.derived]
    split <;> omega

end Adds

variable {f : Forest} {c : Constituent}

/-- A constituent that is listed adds its size. -/
theorem sumAt_listNew (f : Forest) (c : Constituent) (count : Nat)
    (size : Constituent → Nat) (p : Nat → Bool) :
    (f.listNew c count).sumAt size p
      = f.sumAt size p + if p (c.stop - c.start) then size c else 0 := by
  show ((f.constituents.push c).toList.map _).sum = _
  rw [Array.toList_push, List.map_append, List.sum_append]
  simp [sumAt]

/-- A constituent that is replaced by a greater one over the same span adds
the difference. -/
theorem sumAt_replace {id n : Nat} {c' : Constituent} (count : Nat)
    {size : Constituent → Nat} (hc : f.constituents[id]? = some c)
    (hspan : c'.stop - c'.start = c.stop - c.start)
    (hsize : size c' = size c + n) (p : Nat → Bool) :
    (f.replace id c' count).sumAt size p
      = f.sumAt size p + if p (c.stop - c.start) then n else 0 := by
  have hget : f.constituents.toList[id]? = some c := by simpa using hc
  have hterm : (if p (c'.stop - c'.start) then size c' else 0)
      = (if p (c.stop - c.start) then size c else 0)
        + if p (c.stop - c.start) then n else 0 := by
    rw [hspan]
    split <;> omega
  show ((f.constituents.setIfInBounds id c').toList.map _).sum = _
  rw [Array.toList_setIfInBounds]
  exact sum_map_set (fun c => if p (c.stop - c.start) then size c else 0) hget
    hterm

end Forest

namespace Parse

open Forest

variable {l : Lattice} {i j w : Nat} {f : Forest} {r : Recorded}

-- ============================================================ recording

/-- What is recorded over a span has been counted: the forest has come from
another by as many constituents and derivations over its width. -/
structure Recorded.Counted (r : Recorded) (f : Forest) (i j : Nat) :
    Prop where
  sound : r.forest.Sound
  max_eq : r.forest.cells.max = f.cells.max
  adds : Adds (j - i) r.made.length r.derivations f r.forest

theorem Recorded.Counted.add (h : r.Counted f i j) (hij : i ≤ j)
    (hj : j ≤ f.cells.max) (d : Completion) : (r.add i j d).Counted f i j := by
  rw [← h.max_eq] at hj
  obtain ⟨made, hmade, hrec⟩ := Recorded.records_add h.sound hij hj d
  refine ⟨hrec.sound, hrec.max_eq.trans h.max_eq, ?_⟩
  by_cases hlisted : ∃ id, (d.rule.rule.lhs, id) ∈ r.forest.cellAt i j
  · obtain ⟨id, hid⟩ := hlisted
    obtain ⟨c, hc, -, hstart, hstop⟩ := h.sound.listed.1 hid
    have hwidth : c.stop - c.start = j - i := by rw [hstart, hstop]
    have hspan : (c.record d).1.stop - (c.record d).1.start
        = c.stop - c.start := by simp
    rw [Recorded.add_eq_of_mem h.sound hid hc]
    -- nothing is made
    show Adds _ (r.made.length + 0) _ _ _
    refine h.adds.trans ⟨fun p => ?_, fun p => ?_⟩
    · rw [← hwidth]
      exact sumAt_replace _ hc hspan rfl p
    · rw [← hwidth]
      exact sumAt_replace _ hc hspan (Constituent.size_record c d) p
  · have hnew : ∀ k, (d.rule.rule.lhs, k) ∉ r.forest.cellAt i j :=
      fun k hk => hlisted ⟨k, hk⟩
    rw [Recorded.add_eq_of_not_mem hij hj hnew, List.length_append]
    exact h.adds.trans
      ⟨sumAt_listNew _ _ _ _, sumAt_listNew _ _ _ _⟩

theorem counted_recordAll (h : f.Sound) (hij : i ≤ j) (hj : j ≤ f.cells.max)
    (ds : List Completion) : (recordAll i j f ds).Counted f i j :=
  recordAll_induction (I := fun r => r.Counted f i j) ⟨h, rfl, .refl _ f⟩
    (fun d _ hr => hr.add hij hj d) ds

/-- The closure counts what it makes. -/
theorem counted_closeFrom (charts : List ChartedGrammar) (fuel : Nat)
    (queue : List Nat) (h : r.Counted f i j) (hij : i ≤ j)
    (hj : j ≤ f.cells.max) :
    (closeFrom l charts i j fuel queue r).Counted f i j := by
  refine closeFrom_induction (I := fun r => r.Counted f i j)
    (fun r id c _ hr => ?_) fuel queue h
  have hstep := counted_recordAll hr.sound hij (by rwa [hr.max_eq])
    (unaryCompletions l charts i j c.lhs id)
  refine ⟨hstep.sound, hstep.max_eq.trans hr.max_eq, ?_⟩
  rw [List.length_append]
  exact hr.adds.trans hstep.adds

theorem counted_closeUnary (charts : List ChartedGrammar) (made : List Nat)
    (h : f.Sound) (hij : i ≤ j) (hj : j ≤ f.cells.max) :
    (closeUnary l charts i j f made).Counted f i j :=
  counted_closeFrom charts _ made ⟨h, rfl, .refl _ f⟩ hij hj

-- =============================================================== passes

/-- The forest of a state is sound and has the size of the lattice. -/
structure Sized (l : Lattice) (p : Parse) : Prop where
  sound : p.forest.Sound
  max_eq : p.forest.cells.max = l.nodeCount

theorem sized_empty {p : Parse} (h : p.forest = .empty l.nodeCount) :
    p.Sized l := by
  refine ⟨?_, ?_⟩ <;> rw [h]
  · exact sound_empty _
  · rfl

/-- The counts of a pass are what the forest has come from another by. -/
structure Tallied (l : Lattice) (w : Nat) (f : Forest)
    (s : Parse × PassCounts) : Prop where
  sized : s.1.Sized l
  width : s.2.width = w
  adds : Adds w s.2.constituents s.2.derivations f s.1.forest

/-- Taking a span counts what it adds to the forest. -/
theorem Tallied.takeSpan {s : Parse × PassCounts}
    (h : Tallied l (j - i) f s) (hij : i ≤ j) (hj : j ≤ l.nodeCount) :
    Tallied l (j - i) f (takeSpan l i j s.1 s.2) := by
  have hmax : j ≤ s.1.forest.cells.max := by rwa [h.sized.max_eq]
  let expanded :=
    mapCharts (fun g c => c.expand g l s.1.forest i j) s.1.charts
  have hcompleted := counted_recordAll h.sized.sound hij hmax
    (completions l expanded i j)
  have hclosed := counted_closeUnary (l := l) expanded
    (recordAll i j s.1.forest (completions l expanded i j)).made
    hcompleted.sound hij (by rwa [hcompleted.max_eq])
  exact {
    sized := ⟨hclosed.sound,
      hclosed.max_eq.trans (hcompleted.max_eq.trans h.sized.max_eq)⟩
    width := h.width
    adds := (h.adds.trans hcompleted.adds).trans hclosed.adds }

/-- The pass of a width counts what it adds to the forest. -/
theorem tallied_takeWidth {p : Parse} (h : p.Sized l) (w : Nat) :
    Tallied l w p.forest (takeWidth l w p) := by
  refine takeWidth_induction ⟨h, rfl, .refl w p.forest⟩ fun i s hi hs => ?_
  have hnodes := l.nodeCount_eq
  rw [← Nat.add_sub_cancel_left i w] at hs
  have hnext := hs.takeSpan (Nat.le_add_right i w) (by omega)
  rw [Nat.add_sub_cancel_left] at hnext
  exact hnext

/-- The passes of several widths count what they add to the forest. -/
theorem adds_takeWidths {p : Parse} (h : p.Sized l) (ws : List Nat)
    (q : Nat → Bool) :
    (takeWidths l ws p).2.map (·.width) = ws
      ∧ (takeWidths l ws p).1.forest.madeAt q
        = p.forest.madeAt q + ((takeWidths l ws p).2.map fun n =>
            if q n.width then n.constituents else 0).sum
      ∧ (takeWidths l ws p).1.forest.derivedAt q
        = p.forest.derivedAt q + ((takeWidths l ws p).2.map fun n =>
            if q n.width then n.derivations else 0).sum := by
  induction ws generalizing p with
  | nil => exact ⟨rfl, rfl, rfl⟩
  | cons w ws ih =>
      have hpass := tallied_takeWidth h w
      obtain ⟨hwidths, hmade, hderived⟩ := ih hpass.sized
      simp only [takeWidths, List.map_cons, List.sum_cons]
      refine ⟨by rw [hwidths, hpass.width], ?_, ?_⟩
      · rw [hmade, hpass.adds.made, hpass.width, Nat.add_assoc]
      · rw [hderived, hpass.adds.derived, hpass.width, Nat.add_assoc]

/-- A sum over a list in which one element counts. -/
theorem sum_map_ite_of_nodup {ns : List PassCounts} {n : PassCounts}
    (hnodup : (ns.map (·.width)).Nodup) (hn : n ∈ ns)
    (count : PassCounts → Nat) :
    (ns.map fun m => if m.width == n.width then count m else 0).sum
      = count n := by
  induction ns with
  | nil => cases hn
  | cons m ns ih =>
      rw [List.map_cons, List.nodup_cons] at hnodup
      rw [List.map_cons, List.sum_cons]
      rcases List.mem_cons.1 hn with rfl | hn
      · have hrest : ns.map (fun m => if m.width == n.width then count m else 0)
            = ns.map fun _ => 0 := by
          refine List.map_congr_left fun m hm => if_neg fun heq => hnodup.1 ?_
          rw [← eq_of_beq heq]
          exact List.mem_map_of_mem hm
        rw [hrest, List.map_const', List.sum_replicate_nat]
        simp
      · have hne : ¬ (m.width == n.width) = true := fun heq => hnodup.1 <| by
          rw [eq_of_beq heq]
          exact List.mem_map_of_mem hn
        rw [if_neg hne, ih hnodup.2 hn, Nat.zero_add]

/-- A parse that ends has taken all widths, beginning with seeded charts and
no constituents. -/
theorem exists_takeWidths {gs : List GrammarView} {goal : Symbol}
    {r : ParseResult} (h : l.parse gs goal = .ok r) :
    ∃ start : Parse, start.forest = .empty l.nodeCount
      ∧ r.seeded = ChartedGrammar.totalItems start.charts
      ∧ r.parse = (takeWidths l (widths l) start).1
      ∧ r.passes = (takeWidths l (widths l) start).2 := by
  rw [parse_eq] at h
  cases hbegin : begin l gs with
  | error e =>
      rw [hbegin] at h
      cases h
  | ok start =>
      rw [hbegin] at h
      injection h with h
      subst h
      refine ⟨start, ?_, rfl, (takeWidths_fst l (widths l) start).symm, rfl⟩
      rw [Charting.begin_eq hbegin]
      rfl

/-- Each width has a pass, and its counts are the numbers of the constituents
of that width and of their derivations. -/
theorem passes_eq {gs : List GrammarView} {goal : Symbol} {r : ParseResult}
    (h : l.parse gs goal = .ok r) :
    r.passes.map (fun n => (n.width, n.constituents, n.derivations))
      = (widths l).map fun w => (w, r.parse.forest.madeAt (· == w),
          r.parse.forest.derivedAt (· == w)) := by
  obtain ⟨start, hempty, -, hparse, hpasses⟩ := exists_takeWidths h
  have hadds := fun q => adds_takeWidths (sized_empty hempty) (widths l) q
  rw [← hparse, ← hpasses, hempty] at hadds
  have hwidths := (hadds fun _ => true).1
  have hnodup : (r.passes.map (·.width)).Nodup := by
    rw [hwidths]
    exact List.nodup_range'
  rw [← hwidths, List.map_map]
  refine List.map_congr_left fun n hn => ?_
  obtain ⟨-, hmade, hderived⟩ := hadds (· == n.width)
  rw [sum_map_ite_of_nodup hnodup hn] at hmade hderived
  rw [Function.comp_apply, hmade, hderived]
  simp [madeAt, derivedAt, sumAt, empty]

end Parse

end LatticeParsing
