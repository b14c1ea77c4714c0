/-
Constituents are numbered in the order of their spans.

Taking a span makes constituents over that span alone (`span_cases`), so
the numbers of constituents follow the order in which spans are taken: by
width, and by start within a width. A constituent over a narrower span has
the lesser number, whatever phase of a parse made the two.
-/
import LatticeParsing.Proofs.Parse.Charting

namespace LatticeParsing

/-- The span of a constituent. -/
def Constituent.span (c : Constituent) : Nat × Nat := (c.start, c.stop)

-- ============================================================ recording

namespace Forest.Records

variable {f f' : Forest} {i j a b id : Nat} {ds : List Derivation}
  {made : List Nat} {e : Symbol × Nat} {c : Constituent}

/-- What is listed stays listed. -/
theorem listed (h : Records i j ds made f f') (he : e ∈ f.cellAt a b) :
    e ∈ f'.cellAt a b := by
  by_cases hab : a = i ∧ b = j
  · obtain ⟨rfl, rfl⟩ := hab
    obtain ⟨es, -, hperm, -⟩ := h.cell
    exact hperm.mem_iff.2 (List.mem_append_left _ he)
  · rw [h.cellAt_of_ne a b hab]
    exact he

/-- A constituent was there over the same span, or it is new and stands over
the span over which has been recorded. -/
theorem span_cases (h : Records i j ds made f f') (hf : f.Sound)
    (hc : f'.constituents[id]? = some c) :
    (∃ c₀, f.constituents[id]? = some c₀ ∧ c₀.span = c.span)
      ∨ f.constituents.size ≤ id ∧ c.span = (i, j) := by
  have hlisted := h.sound.mem_of_constituent hc
  cases hold : f.constituents[id]? with
  | some c₀ =>
      have hkept := h.listed (hf.mem_of_constituent hold)
      obtain ⟨-, hstart, hstop⟩ := h.sound.span_eq hkept hlisted
      exact Or.inl ⟨c₀, rfl, Prod.ext hstart hstop⟩
  | none =>
      have hnew := Array.getElem?_eq_none_iff.1 hold
      refine Or.inr ⟨hnew, ?_⟩
      by_contra hspan
      -- other cells list what they listed before
      rw [h.cellAt_of_ne c.start c.stop fun heq =>
        hspan (Prod.ext heq.1 heq.2)] at hlisted
      have hlt := hf.lt_size hlisted
      omega

end Forest.Records

-- ============================================================== numbers

namespace Forest

open Parse

variable {f f' : Forest} {done : List (Nat × Nat)} {s : Nat × Nat}
  {ds : List Derivation} {made : List Nat}

/-- Constituents stand over spans that have been taken, and are numbered in
the order of these spans. -/
structure Numbered (f : Forest) (done : List (Nat × Nat)) : Prop where
  taken : ∀ (id : Nat) (c : Constituent), f.constituents[id]? = some c →
    c.span ∈ done
  ascending : ∀ (k m : Nat) (c c' : Constituent),
    f.constituents[k]? = some c → f.constituents[m]? = some c' → k < m →
      c.span = c'.span ∨ Earlier c.span c'.span

theorem numbered_empty (n : Nat) : (empty n).Numbered [] where
  taken := by simp [empty]
  ascending := by simp [empty]

/-- Recording over a span that comes last keeps the numbers in order. -/
theorem Numbered.records (h : f.Numbered done)
    (hrec : Records s.1 s.2 ds made f f') (hf : f.Sound)
    (hlast : ∀ t ∈ done, Earlier t s) : f'.Numbered (done ++ [s]) where
  taken := by
    intro id c hc
    rcases hrec.span_cases hf hc with ⟨c₀, hc₀, hspan⟩ | ⟨-, hspan⟩
    · rw [← hspan]
      exact List.mem_append_left _ (h.taken id c₀ hc₀)
    · rw [hspan]
      exact List.mem_append_right _ (List.mem_singleton_self _)
  ascending := by
    intro k m c c' hc hc' hkm
    rcases hrec.span_cases hf hc' with ⟨c₁, hc₁, hspan'⟩ | ⟨hnew', hspan'⟩
    · have hm := (Array.getElem?_eq_some_iff.1 hc₁).1
      rcases hrec.span_cases hf hc with ⟨c₀, hc₀, hspan⟩ | ⟨hnew, -⟩
      · rw [← hspan, ← hspan']
        exact h.ascending k m c₀ c₁ hc₀ hc₁ hkm
      · omega
    · rcases hrec.span_cases hf hc with ⟨c₀, hc₀, hspan⟩ | ⟨-, hspan⟩
      · rw [← hspan, hspan']
        exact Or.inr (hlast c₀.span (h.taken k c₀ hc₀))
      · exact Or.inl (hspan.trans hspan'.symm)

end Forest

-- ================================================================ a parse

namespace Charting

open Parse

variable {l : Lattice} {gs : List GrammarView} {x : Charting}
  {done ss : List (Nat × Nat)}

theorem numbered_foldl (h : x.forest.Numbered done) (hx : x.Fit l)
    (hss : ∀ s ∈ ss, Proper l s) (horder : (done ++ ss).Pairwise Earlier) :
    (ss.foldl (Charting.next l gs) x).forest.Numbered (done ++ ss) := by
  induction ss generalizing x done with
  | nil =>
      rw [List.append_nil]
      exact h
  | cons s ss ih =>
      have hs := hss s (List.mem_cons_self ..)
      have hle := Nat.le_of_lt hs.1
      obtain ⟨ds, made, hrec⟩ := records_next gs hx hle hs.le_nodeCount
      have hlast : ∀ t ∈ done, Earlier t s := fun t ht =>
        (List.pairwise_append.1 horder).2.2 t ht s (List.mem_cons_self ..)
      have hsplit : done ++ s :: ss = (done ++ [s]) ++ ss := by simp
      rw [hsplit] at horder ⊢
      exact ih (h.records hrec hx.sound hlast) (hx.next hle hs.le_nodeCount)
        (fun t ht => hss t (List.mem_cons_of_mem _ ht)) horder

/-- At the end of a parse the numbers of constituents follow the order of
the spans. -/
theorem numbered_final (l : Lattice) (gs : List GrammarView) :
    (final l gs).forest.Numbered (order l) := by
  have hstart : ([] ++ order l).Pairwise Earlier := order_ascends l
  exact numbered_foldl (Forest.numbered_empty _) (fit_seeded l)
    (fun _ hs => proper_of_mem_order hs) hstart

/-- Of two constituents the one over the narrower span has the lesser
number. -/
theorem lt_of_narrower {k m : Nat} {c c' : Constituent}
    (hc : (final l gs).forest.constituents[k]? = some c)
    (hc' : (final l gs).forest.constituents[m]? = some c')
    (hwidth : c.stop - c.start < c'.stop - c'.start) : k < m := by
  by_contra hle
  rcases Nat.lt_or_eq_of_le (Nat.le_of_not_lt hle) with hlt | heq
  · have hwidths := (numbered_final l gs).ascending m k c' c hc' hc hlt
    simp only [Constituent.span, Earlier, Prod.mk.injEq] at hwidths
    omega
  · subst heq
    rw [hc] at hc'
    injection hc' with hc'
    subst hc'
    omega

end Charting

end LatticeParsing
