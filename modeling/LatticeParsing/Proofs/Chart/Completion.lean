/-
What recording completions comes to.

`Recorded.add` either lowers or extends a constituent that is there or lists
a new one (`add_eq_of_mem`, `add_eq_of_not_mem`). Both are steps of
`Forest.Records`, and so is any number of them (`records_recordAll`).

A forest is grounded when the antecedents of every first derivation were
found before the constituent itself (`Forest.Grounded`). Recording keeps
that up if the antecedents of what is recorded are there, which is what
makes derivations finite in spite of cycles of rules.
-/
import LatticeParsing.Proofs.Chart.ForestCells

namespace LatticeParsing

open Forest

-- ======================================================= one completion

namespace Parse.Recorded

variable {r : Recorded} {d : Derivation} {i j : Nat}

/-- Recording a rule whose left-hand side is listed over the span. -/
theorem add_eq_of_mem (h : r.forest.Sound) {id : Nat} {c : Constituent}
    (hmem : (d.rule.rule.lhs, id) ∈ r.forest.cellAt i j)
    (hc : r.forest.constituents[id]? = some c) :
    r.add i j d
      = ⟨r.forest.replace id (c.record d).1
          (r.forest.derivationCount + if (c.record d).2 then 1 else 0),
        r.made, r.derivations + if (c.record d).2 then 1 else 0⟩ := by
  unfold add
  rw [h.ensure?_of_mem hmem]
  simp only [record_of_some hc]
  rfl

/-- Recording a rule whose left-hand side is not listed over the span. -/
theorem add_eq_of_not_mem (hij : i ≤ j) (hj : j ≤ r.forest.cells.max)
    (hnew : ∀ k, (d.rule.rule.lhs, k) ∉ r.forest.cellAt i j) :
    r.add i j d
      = ⟨r.forest.listNew
          ⟨r.forest.constituents.size, d.rule.rule.lhs, i, j, #[d]⟩
          (r.forest.derivationCount + 1),
        r.made ++ [r.forest.constituents.size], r.derivations + 1⟩ := by
  have hget : (r.forest.listNew
        ⟨r.forest.constituents.size, d.rule.rule.lhs, i, j, #[]⟩
        r.forest.derivationCount).constituents[r.forest.constituents.size]?
      = some ⟨r.forest.constituents.size, d.rule.rule.lhs, i, j, #[]⟩ := by
    rw [getElem?_listNew, if_pos rfl]
  have hset : (r.forest.constituents.push
        ⟨r.forest.constituents.size, d.rule.rule.lhs, i, j, #[]⟩).setIfInBounds
          r.forest.constituents.size
          ⟨r.forest.constituents.size, d.rule.rule.lhs, i, j, #[d]⟩
      = r.forest.constituents.push
          ⟨r.forest.constituents.size, d.rule.rule.lhs, i, j, #[d]⟩ := by
    rw [← Array.toList_inj]
    simp
  unfold add
  rw [ensure?_of_not_mem hij hj hnew]
  simp only [record_of_some hget]
  simp [Forest.replace, Constituent.record, Forest.listNew, hset]

/-- One completion is a step of recording. -/
theorem records_add (h : r.forest.Sound) (hij : i ≤ j)
    (hj : j ≤ r.forest.cells.max) (d : Derivation) :
    ∃ made, (r.add i j d).made = r.made ++ made
      ∧ Records i j [d] made r.forest (r.add i j d).forest := by
  by_cases hlisted : ∃ id, (d.rule.rule.lhs, id) ∈ r.forest.cellAt i j
  · obtain ⟨id, hid⟩ := hlisted
    obtain ⟨c, hc, -⟩ := h.listed.1 hid
    rw [add_eq_of_mem h hid hc]
    exact ⟨[], (List.append_nil _).symm, h.records_replace hid hc _⟩
  · have hnew : ∀ k, (d.rule.rule.lhs, k) ∉ r.forest.cellAt i j :=
      fun k hk => hlisted ⟨k, hk⟩
    rw [add_eq_of_not_mem hij hj hnew]
    exact ⟨_, rfl, h.records_listNew hij hj hnew _⟩

/-- What was made before does not matter to the forest. -/
theorem add_forest (r : Recorded) (i j : Nat) (d : Derivation) :
    (r.add i j d).forest = (Recorded.add i j ⟨r.forest, [], 0⟩ d).forest := by
  unfold add
  cases r.forest.ensure? i j d.rule.rule.lhs with
  | none => rfl
  | some e => rfl

/-- Any number of completions is a step of recording. -/
theorem records_foldl (h : r.forest.Sound) (hij : i ≤ j)
    (hj : j ≤ r.forest.cells.max) (ds : List Derivation) :
    ∃ made, (ds.foldl (Recorded.add i j) r).made = r.made ++ made
      ∧ Records i j ds made r.forest
          (ds.foldl (Recorded.add i j) r).forest := by
  induction ds generalizing r with
  | nil => exact ⟨[], (List.append_nil _).symm, .refl h⟩
  | cons d ds ih =>
      obtain ⟨made, hmade, hrec⟩ := records_add h hij hj d
      obtain ⟨made', hmade', hrec'⟩ :=
        ih hrec.sound (by rwa [hrec.max_eq])
      refine ⟨made ++ made', ?_, hrec.trans hrec'⟩
      rw [List.foldl_cons, hmade', hmade, List.append_assoc]

end Parse.Recorded

namespace Parse

variable {f : Forest} {i j : Nat}

/-- Recording completions over a span of the table. -/
theorem records_recordAll (h : f.Sound) (hij : i ≤ j) (hj : j ≤ f.cells.max)
    (ds : List Derivation) :
    Records i j ds (recordAll i j f ds).made f (recordAll i j f ds).forest := by
  obtain ⟨made, hmade, hrec⟩ :=
    Recorded.records_foldl (r := ⟨f, [], 0⟩) h hij hj ds
  rw [List.nil_append] at hmade
  unfold recordAll
  rwa [hmade]

/-- What holds before anything is recorded, and stays true when a completion
is, holds when all have been. -/
theorem recordAll_induction {I : Recorded → Prop} (hstart : I ⟨f, [], 0⟩)
    (hadd : ∀ d r, I r → I (r.add i j d)) (ds : List Derivation) :
    I (recordAll i j f ds) := by
  unfold recordAll
  generalize (⟨f, [], 0⟩ : Recorded) = r at hstart
  induction ds generalizing r with
  | nil => exact hstart
  | cons d ds ih => exact ih _ (hadd d r hstart)

/-- The forest after one list of completions and then another. -/
theorem recordAll_append (i j : Nat) (f : Forest) (ds es : List Derivation) :
    (recordAll i j f (ds ++ es)).forest
      = (recordAll i j (recordAll i j f ds).forest es).forest := by
  have key : ∀ (es : List Derivation) (r : Recorded),
      (es.foldl (Recorded.add i j) r).forest
        = (es.foldl (Recorded.add i j) ⟨r.forest, [], 0⟩).forest := by
    intro es
    induction es with
    | nil => intro r; rfl
    | cons e es ih =>
        intro r
        rw [List.foldl_cons, List.foldl_cons, ih, Recorded.add_forest,
          ← ih (Recorded.add i j ⟨r.forest, [], 0⟩ e)]
  unfold recordAll
  rw [List.foldl_append, key]

end Parse

-- ============================================================ grounding

/-- The antecedents of every first derivation were found before the
constituent that it derives. -/
def Forest.Grounded (f : Forest) : Prop :=
  ∀ (id : Nat) (c : Constituent), f.constituents[id]? = some c →
    ∃ d : Derivation, c.derivations[0]? = some d ∧ ∀ a ∈ d.antecedents, a < id

namespace Forest

variable {f : Forest} {i j : Nat} {d : Derivation}

theorem grounded_empty (n : Nat) : (empty n).Grounded := by
  intro id c hc
  simp [empty] at hc

/-- A further derivation leaves the first where it is. -/
theorem first_record {c : Constituent} {e : Derivation}
    (he : c.derivations[0]? = some e) (d : Derivation) :
    ∃ e', (c.record d).1.derivations[0]? = some e'
      ∧ e'.antecedents = e.antecedents := by
  unfold Constituent.record
  split
  · rename_i k hk
    simp only [Array.getElem?_modify, he]
    split
    · exact ⟨_, rfl, rfl⟩
    · exact ⟨_, rfl, rfl⟩
  · have hpos := (Array.getElem?_eq_some_iff.1 he).1
    refine ⟨e, ?_, rfl⟩
    show (c.derivations.push d)[0]? = some e
    rw [Array.getElem?_push, if_neg (by omega), he]

/-- Recording keeps a forest grounded if what is recorded has its
antecedents. -/
theorem Grounded.add {r : Parse.Recorded} (hg : r.forest.Grounded)
    (h : r.forest.Sound) (hij : i ≤ j) (hj : j ≤ r.forest.cells.max)
    (hd : ∀ a ∈ d.antecedents, a < r.forest.constituents.size) :
    (r.add i j d).forest.Grounded := by
  by_cases hlisted : ∃ id, (d.rule.rule.lhs, id) ∈ r.forest.cellAt i j
  · obtain ⟨id, hid⟩ := hlisted
    obtain ⟨c, hc, -⟩ := h.listed.1 hid
    rw [Parse.Recorded.add_eq_of_mem h hid hc]
    intro k c' hc'
    rw [getElem?_replace _ _ _ (Array.getElem?_eq_some_iff.1 hc).1] at hc'
    -- the first derivation stays first, whatever is recorded after it
    by_cases hk : k = id
    · subst hk
      rw [if_pos rfl] at hc'
      injection hc' with hc'
      subst hc'
      obtain ⟨e, he, hlt⟩ := hg k c hc
      obtain ⟨e', he', hant⟩ := first_record he d
      exact ⟨e', he', hant ▸ hlt⟩
    · rw [if_neg hk] at hc'
      exact hg k c' hc'
  · have hnew : ∀ k, (d.rule.rule.lhs, k) ∉ r.forest.cellAt i j :=
      fun k hk => hlisted ⟨k, hk⟩
    rw [Parse.Recorded.add_eq_of_not_mem hij hj hnew]
    intro k c' hc'
    have hc' : (r.forest.constituents.push
        ⟨r.forest.constituents.size, d.rule.rule.lhs, i, j, #[d]⟩)[k]?
          = some c' := hc'
    rw [Array.getElem?_push] at hc'
    split at hc'
    case isTrue hk =>
      injection hc' with hc'
      subst hc'
      exact ⟨d, rfl, hk ▸ hd⟩
    case isFalse => exact hg k c' hc'

/-- Recording completions keeps a forest grounded if their antecedents are
there from the start. -/
theorem Grounded.recordAll (hg : f.Grounded) (h : f.Sound) (hij : i ≤ j)
    (hj : j ≤ f.cells.max) {ds : List Derivation}
    (hds : ∀ d ∈ ds, ∀ a ∈ d.antecedents, a < f.constituents.size) :
    (Parse.recordAll i j f ds).forest.Grounded := by
  have key : ∀ (ds : List Derivation) (r : Parse.Recorded),
      r.forest.Grounded → r.forest.Sound → j ≤ r.forest.cells.max →
      (∀ d ∈ ds, ∀ a ∈ d.antecedents, a < r.forest.constituents.size) →
      (ds.foldl (Parse.Recorded.add i j) r).forest.Grounded := by
    intro ds
    induction ds with
    | nil => exact fun r hg _ _ _ => hg
    | cons d ds ih =>
        intro r hg h hj hds
        obtain ⟨made, -, hrec⟩ := Parse.Recorded.records_add h hij hj d
        refine ih _ (hg.add h hij hj (hds d (List.mem_cons_self ..)))
          hrec.sound (by rwa [hrec.max_eq]) fun e he a ha => ?_
        exact Nat.lt_of_lt_of_le
          (hds e (List.mem_cons_of_mem _ he) a ha) hrec.size_le
  exact key ds ⟨f, [], 0⟩ hg h hj hds

end Forest

end LatticeParsing
