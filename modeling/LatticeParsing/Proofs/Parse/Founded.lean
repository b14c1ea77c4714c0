/-
What is referred to has been found before.

Items refer to constituents that are there (`ItemChart.Refers`), so whatever
items complete is recorded after its antecedents, and the closure applies
rules to constituents that are there as well. So the first derivation of
every constituent has antecedents with lesser numbers, at every point of a
parse (`Charting.Founded`): constituents do not come into being in a circle,
though rules may go round in one.
-/
import LatticeParsing.Proofs.Parse.Charting

namespace LatticeParsing

-- =============================================================== items

namespace ItemChart

variable {c : ItemChart} {g : GrammarView} {l : Lattice} {f : Forest}
  {n m i j k : Nat}

/-- The antecedents of an item have numbers below `n`. -/
def Below (n : Nat) (x : Item) : Prop := ∀ a ∈ x.antecedents, a < n

/-- The antecedents of all items have numbers below `n`. -/
def Refers (n : Nat) (c : ItemChart) : Prop :=
  ∀ i j, ∀ x ∈ c.itemsAt i j, Below n x

theorem Refers.mono (h : c.Refers n) (hnm : n ≤ m) : c.Refers m :=
  fun i j x hx a ha => Nat.lt_of_lt_of_le (h i j x hx a ha) hnm

theorem Refers.addAll (h : c.Refers n) {xs : List Item}
    (hxs : ∀ x ∈ xs, Below n x) : (c.addAll xs).Refers n := by
  intro i j x hx
  rcases mem_itemsAt_addAll hx with hx | ⟨hmem, -⟩
  · exact h i j x hx
  · exact hxs x hmem

/-- Crossing a constituent adds one that is there. -/
theorem Refers.overConstituents (h : c.Refers n) (hf : f.Sound)
    (hn : f.constituents.size ≤ n) {e : Bool} {x : Item}
    (hx : x ∈ overConstituents g f e i k j c) : Below n x := by
  obtain ⟨y, hy, lhs, id, p, hmem, -, -, -, rfl⟩ :=
    (mem_overConstituents g).1 hx
  intro a ha
  rcases List.mem_append.1 ha with ha | ha
  · exact h i k y hy a ha
  · rw [List.mem_singleton] at ha
    subst ha
    exact Nat.lt_of_lt_of_le (hf.lt_size hmem) hn

theorem Refers.overArcs (h : c.Refers n) {x : Item}
    (hx : x ∈ overArcs g l i k c) : Below n x := by
  obtain ⟨y, hy, a, -, p, -, -, rfl⟩ := (mem_overArcs g).1 hx
  exact h i k y hy

theorem Refers.crossSplits (h : c.Refers n) (hf : f.Sound)
    (hn : f.constituents.size ≤ n) (ks : List Nat) :
    (crossSplits g f i j c ks).Refers n := by
  unfold ItemChart.crossSplits
  induction ks generalizing c with
  | nil => exact h
  | cons k ks ih => exact ih (h.addAll fun x hx => h.overConstituents hf hn hx)

theorem Refers.expand (h : c.Refers n) (hf : f.Sound)
    (hn : f.constituents.size ≤ n) : (expand g l f i j c).Refers n := by
  unfold ItemChart.expand
  split
  · exact h
  · have hsplits := h.crossSplits (g := g) (i := i) (j := j) hf hn
      (List.range' (i + 1) (j - (i + 1)))
    exact hsplits.addAll fun x hx => hsplits.overArcs hx

theorem Refers.start (h : c.Refers n) (hf : f.Sound)
    (hn : f.constituents.size ≤ n) : (start g f i j c).Refers n :=
  h.addAll fun _ hx => h.overConstituents hf hn hx

end ItemChart

-- ============================================================= parsing

namespace Charting

variable {l : Lattice} {gs : List GrammarView} {x : Charting}
  {s : Nat × Nat}

/-- Items refer to constituents that are there, and first derivations to
constituents that were found before. -/
structure Founded (x : Charting) : Prop where
  refers : ∀ g, (x.chart g).Refers x.forest.constituents.size
  grounded : x.forest.Grounded

theorem founded_seeded (l : Lattice) : (seeded l).Founded where
  refers := by
    intro g
    obtain ⟨xs, hxs, hempty⟩ := seededChart_eq l g
    have hnone : (ItemChart.empty l.nodeCount).Refers 0 := by
      intro i j y hy
      rw [ItemChart.itemsAt_empty] at hy
      cases hy
    show (seededChart l g).Refers 0
    rw [hxs]
    refine hnone.addAll fun y hy a ha => ?_
    rw [(hempty y hy).2] at ha
    cases ha
  grounded := Forest.grounded_empty _

/-- What is completed over a span has antecedents that are there. -/
theorem antecedents_completionsAt {items : GrammarView → List Item}
    {n i j : Nat}
    (hitems : ∀ g, ∀ y ∈ items g, ItemChart.Below n y) :
    ∀ d ∈ completionsAt l gs i j items, ∀ a ∈ d.antecedents, a < n := by
  intro d hd
  obtain ⟨g, -, hd⟩ := List.mem_flatMap.1 hd
  obtain ⟨y, hy, hd⟩ := List.mem_flatMap.1 hd
  obtain ⟨r, -, rfl⟩ := List.mem_map.1 hd
  exact hitems g y hy

theorem Founded.next (h : x.Founded) (hx : x.Fit l) (hs : s.1 ≤ s.2)
    (hmax : s.2 ≤ l.nodeCount) : (x.next l gs s).Founded := by
  obtain ⟨i, j⟩ := s
  have hexpanded : ∀ g,
      (x.expanded l (i, j) g).Refers x.forest.constituents.size := fun g =>
    (h.refers g).expand hx.sound (Nat.le_refl _)
  have hcompleted := records_completedAt gs hx hs hmax
  obtain ⟨ds, made, hrec⟩ := records_next gs hx hs hmax
  constructor
  · intro g
    exact ((hexpanded g).mono hrec.size_le).start hrec.sound (Nat.le_refl _)
  · rw [forest_next]
    refine Parse.grounded_closeFrom l _ hs _ _ _ hcompleted.sound
      (by rwa [hcompleted.max_eq, hx.max]) ?_
    exact h.grounded.recordAll hx.sound hs (by rwa [hx.max])
      (antecedents_completionsAt fun g y hy => hexpanded g i j y hy)

theorem Founded.foldl (h : x.Founded) (hx : x.Fit l) {ss : List (Nat × Nat)}
    (hss : ∀ s ∈ ss, Proper l s) :
    (ss.foldl (Charting.next l gs) x).Founded := by
  induction ss generalizing x with
  | nil => exact h
  | cons s ss ih =>
      have hs := hss s (List.mem_cons_self ..)
      have hle := Nat.le_of_lt hs.1
      exact ih (h.next hx hle hs.le_nodeCount) (hx.next hle hs.le_nodeCount)
        fun t ht => hss t (List.mem_cons_of_mem _ ht)

theorem founded_final (l : Lattice) (gs : List GrammarView) :
    (final l gs).Founded :=
  (founded_seeded l).foldl (fit_seeded l) fun _ hs => proper_of_mem_order hs

/-- At the end of a parse every constituent has a first derivation, from
constituents that were found before it. -/
theorem exists_first_derivation {id : Nat} {c : Constituent}
    (hc : (final l gs).forest.constituents[id]? = some c) :
    ∃ d, c.derivations[0]? = some d ∧ d ∈ c.derivations.toList
      ∧ ∀ a ∈ d.antecedents, a < id := by
  obtain ⟨d, hd, hbefore⟩ := (founded_final l gs).grounded id c hc
  have hmem := hd
  rw [← Array.getElem?_toList] at hmem
  exact ⟨d, hd, List.mem_of_getElem? hmem, hbefore⟩

end Charting

end LatticeParsing
