/-
Constituents told by their places.

The number of a constituent depends on the order in which a parse finds what
there is. Its place, the left-hand side and the span, does not, and tells it
from all others of the forest (`Sound.place?_inj`). So derivations of two
forests can be compared by the places of their antecedents (`Forest.named`),
and where one forest has the places of another a realisation has a
counterpart there (`Realises.rename`).
-/
import LatticeParsing.Proofs.Chart.ForestCalls
import LatticeParsing.Proofs.Parse.Realisations

namespace LatticeParsing

variable {E : PatternEngine}

/-- The left-hand side and the span of a constituent. -/
def Constituent.place (c : Constituent) : Symbol × Nat × Nat :=
  (c.lhs, c.start, c.stop)

namespace Forest

/-- The place of a constituent that is told by its number. -/
def place? (f : Forest) (id : Nat) : Option (Symbol × Nat × Nat) :=
  f.constituents[id]?.map Constituent.place

/-- The rule of a derivation and the places of its antecedents. -/
def named (f : Forest) (d : Derivation) :
    Rule × List (Option (Symbol × Nat × Nat)) :=
  (d.rule.rule, d.antecedents.map f.place?)

variable {f f' : Forest} {id k i j : Nat} {c : Constituent} {lhs : Symbol}

-- =============================================================== places

theorem Sound.place?_of_mem (h : f.Sound) (hmem : (lhs, id) ∈ f.cellAt i j) :
    f.place? id = some (lhs, i, j) := by
  obtain ⟨c, hc, rfl, rfl, rfl⟩ := h.listed.1 hmem
  unfold place?
  rw [hc]
  rfl

/-- No two constituents have the same place. -/
theorem Sound.place?_inj (h : f.Sound) (hid : id < f.constituents.size)
    (heq : f.place? id = f.place? k) : id = k := by
  have hc := Array.getElem?_eq_getElem hid
  unfold place? at heq
  rw [hc] at heq
  cases hk : f.constituents[k]? with
  | none =>
      rw [hk] at heq
      cases heq
  | some c' =>
      rw [hk] at heq
      simp only [Option.map_some, Option.some.injEq, Constituent.place,
        Prod.mk.injEq] at heq
      obtain ⟨hlhs, hstart, hstop⟩ := heq
      exact h.eq_of_span hc hk hstart hstop hlhs

/-- Numbers are told by their places, one by one. -/
theorem Sound.map_place?_inj (h : f.Sound) {A B : List Nat}
    (hA : ∀ a ∈ A, a < f.constituents.size)
    (heq : A.map f.place? = B.map f.place?) : A = B := by
  induction A generalizing B with
  | nil => exact (List.map_eq_nil_iff.1 heq.symm).symm
  | cons a A ih =>
      cases B with
      | nil => cases heq
      | cons b B =>
          rw [List.map_cons, List.map_cons] at heq
          injection heq with hab hrest
          rw [List.forall_mem_cons] at hA
          rw [h.place?_inj hA.1 hab, ih hA.2 hrest]

/-- The places of a forest differ. -/
theorem Sound.nodup_places (h : f.Sound) :
    (f.constituents.toList.map Constituent.place).Nodup := by
  unfold List.Nodup
  rw [List.pairwise_map, List.pairwise_iff_getElem]
  intro m n hm hn hmn heq
  have hc : f.constituents[m]? = some f.constituents.toList[m] := by
    rw [← Array.getElem?_toList, List.getElem?_eq_getElem hm]
  have hc' : f.constituents[n]? = some f.constituents.toList[n] := by
    rw [← Array.getElem?_toList, List.getElem?_eq_getElem hn]
  have hsame : m = n := by
    refine h.place?_inj (by simpa using hm) ?_
    unfold place?
    rw [hc, hc', Option.map_some, Option.map_some, heq]
  omega

/-- The places of a forest with the numbers of derivations. -/
def sizes (f : Forest) : List ((Symbol × Nat × Nat) × Nat) :=
  f.constituents.toList.map fun c => (c.place, c.derivations.size)

theorem mem_sizes {e : (Symbol × Nat × Nat) × Nat} :
    e ∈ f.sizes ↔ ∃ (id : Nat) (c : Constituent),
      f.constituents[id]? = some c ∧ (c.place, c.derivations.size) = e := by
  simp only [sizes, List.mem_map, Array.mem_toList_iff,
    Array.mem_iff_getElem?]
  constructor
  · intro h
    obtain ⟨c, ⟨id, hc⟩, he⟩ := h
    exact ⟨id, c, hc, he⟩
  · intro h
    obtain ⟨id, c, hc, he⟩ := h
    exact ⟨c, ⟨id, hc⟩, he⟩

theorem Sound.nodup_sizes (h : f.Sound) : f.sizes.Nodup := by
  refine List.Nodup.of_map Prod.fst ?_
  unfold sizes
  rw [List.map_map]
  exact h.nodup_places

/-- Whether a forest has constituents at all places of another. -/
def HasPlaces (f' f : Forest) : Prop :=
  ∀ i j lhs id, (lhs, id) ∈ f.cellAt i j → ∃ id', (lhs, id') ∈ f'.cellAt i j

end Forest

-- ========================================================= realisations

namespace Realises

variable {l : Lattice} {f f' : Forest} {g g' : GrammarContents E}
  {v : Vocabulary} {i j : Nat} {source : List Symbol} {ts : List Step}

/-- The antecedents of a realisation are there. -/
theorem antecedents_lt (h : Realises l f g v j i source ts) (hf : f.Sound) :
    ∀ a ∈ Trail.antecedents ts, a < f.constituents.size := by
  induction h with
  | nil => exact fun a ha => by cases ha
  | arc _ _ _ _ ih => exact ih
  | constituent hmem _ _ ih =>
      rw [Trail.antecedents_constituent_cons, List.forall_mem_cons]
      exact ⟨hf.lt_size hmem, ih⟩

/-- A source side is realised alike by grammars whose symbols accept
alike. -/
theorem of_accepts (h : Realises l f g v j i source ts)
    (haccepts : ∀ s ∈ source, ∀ a, g.Accepts v s a → g'.Accepts v s a) :
    Realises l f g' v j i source ts := by
  induction h with
  | nil => exact .nil
  | arc ha hs hacc _ ih =>
      rw [List.forall_mem_cons] at haccepts
      exact .arc ha hs (haccepts.1 _ hacc) (ih haccepts.2)
  | constituent hmem hs _ ih =>
      rw [List.forall_mem_cons] at haccepts
      exact .constituent hmem hs (ih haccepts.2)

/-- A realisation over one forest has a counterpart over another that has
the same places. -/
theorem rename (h : Realises l f g v j i source ts) (hf : f.Sound)
    (hf' : f'.Sound) (hplaces : f'.HasPlaces f) :
    ∃ ts', Realises l f' g v j i source ts'
      ∧ (Trail.antecedents ts').map f'.place?
        = (Trail.antecedents ts).map f.place? := by
  induction h with
  | nil => exact ⟨[], .nil, rfl⟩
  | arc ha hs hacc _ ih =>
      obtain ⟨ts', hreal, hants⟩ := ih
      exact ⟨_, .arc ha hs hacc hreal, hants⟩
  | constituent hmem hs _ ih =>
      obtain ⟨ts', hreal, hants⟩ := ih
      obtain ⟨id', hmem'⟩ := hplaces _ _ _ _ hmem
      refine ⟨_, .constituent hmem' hs hreal, ?_⟩
      rw [Trail.antecedents_constituent_cons,
        Trail.antecedents_constituent_cons, List.map_cons, List.map_cons,
        hants, hf'.place?_of_mem hmem', hf.place?_of_mem hmem]

end Realises

end LatticeParsing
