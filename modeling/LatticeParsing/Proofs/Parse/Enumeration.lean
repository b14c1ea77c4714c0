/-
Lists that enumerate.

A list enumerates the objects with a property when it has one element for
every object, no object twice, and no other elements. Which element stands
for an object is said by a relation, so an element need not determine its
object. The lists that a chart is filled from are put together by joining
(`append`) and by running through one list inside another (`flatMap`); both
keep enumerations, as long as no object arises in two ways.
-/
import Mathlib.Data.List.Forall2
import Mathlib.Data.List.Nodup

namespace LatticeParsing

variable {α β γ δ : Type}

/-- The elements of `xs` stand, by `R`, for the objects with the property
`P`, each object once. -/
def Enumerates (R : α → β → Prop) (P : α → Prop) (xs : List β) : Prop :=
  ∃ ts : List α, ts.Nodup ∧ (∀ t, t ∈ ts ↔ P t) ∧ List.Forall₂ R ts xs

namespace Enumerates

variable {R : α → β → Prop} {P Q : α → Prop} {xs ys : List β}

/-- A list without repetition enumerates its elements. -/
theorem self {xs : List α} (h : xs.Nodup) : Enumerates Eq (· ∈ xs) xs :=
  ⟨xs, h, fun _ => Iff.rfl, List.forall₂_eq_eq_eq ▸ rfl⟩

theorem nil (h : ∀ t, ¬ P t) : Enumerates R P [] :=
  ⟨[], List.nodup_nil, fun t => iff_of_false List.not_mem_nil (h t), .nil⟩

theorem congr (h : Enumerates R P xs) (hPQ : ∀ t, P t ↔ Q t) :
    Enumerates R Q xs := by
  obtain ⟨ts, hnodup, hmem, hR⟩ := h
  exact ⟨ts, hnodup, fun t => (hmem t).trans (hPQ t), hR⟩

theorem append (h : Enumerates R P xs) (h' : Enumerates R Q ys)
    (hdisjoint : ∀ t, P t → ¬ Q t) :
    Enumerates R (fun t => P t ∨ Q t) (xs ++ ys) := by
  obtain ⟨ts, hnodup, hmem, hR⟩ := h
  obtain ⟨us, hnodup', hmem', hR'⟩ := h'
  refine ⟨ts ++ us, ?_, fun t => ?_, List.rel_append hR hR'⟩
  · refine List.nodup_append'.2 ⟨hnodup, hnodup', fun t ht hu => ?_⟩
    exact hdisjoint t ((hmem t).1 ht) ((hmem' t).1 hu)
  · rw [List.mem_append, hmem, hmem']

/-- An optional element, which stands for the only object. -/
theorem toList {o : Option β} {t : α}
    (hsome : ∀ x, o = some x → P t ∧ R t x)
    (hP : ∀ u, P u → u = t ∧ o.isSome) : Enumerates R P o.toList := by
  cases o with
  | none => exact .nil fun u hu => by cases (hP u hu).2
  | some x =>
      obtain ⟨hPt, hR⟩ := hsome x rfl
      refine ⟨[t], List.nodup_singleton t, fun u => ?_, .cons hR .nil⟩
      rw [List.mem_singleton]
      constructor
      · intro heq
        subst heq
        exact hPt
      · exact fun hu => (hP u hu).1

/-- One list run through inside another, where what arises from different
objects differs. -/
theorem flatMap {S : γ → δ → Prop} {Q : α → γ → Prop} {f : β → List δ}
    (h : Enumerates R P xs)
    (hf : ∀ t x, P t → R t x → Enumerates S (Q t) (f x))
    (hdisjoint : ∀ t t' u, P t → P t' → Q t u → Q t' u → t = t') :
    Enumerates S (fun u => ∃ t, P t ∧ Q t u) (xs.flatMap f) := by
  obtain ⟨ts, hnodup, hmem, hR⟩ := h
  have hP : ∀ t ∈ ts, P t := fun t ht => (hmem t).1 ht
  have key : Enumerates S (fun u => ∃ t, t ∈ ts ∧ Q t u) (xs.flatMap f) := by
    clear hmem
    induction hR with
    | nil => exact .nil fun u ⟨t, ht, _⟩ => List.not_mem_nil ht
    | @cons t x ts xs htx hR ih =>
        obtain ⟨hnot, hnodup⟩ := List.nodup_cons.1 hnodup
        have hfirst := hf t x (hP t (List.mem_cons_self ..)) htx
        have hrest := ih hnodup fun t ht => hP t (List.mem_cons_of_mem _ ht)
        -- what arises from the first object arises from none of the others
        have hboth := hfirst.append hrest fun u hu ⟨t', ht', hu'⟩ =>
          hnot (hdisjoint t t' u (hP t (List.mem_cons_self ..))
            (hP t' (List.mem_cons_of_mem _ ht')) hu hu' ▸ ht')
        rw [List.flatMap_cons]
        exact hboth.congr fun u => by
          simp only [List.mem_cons, exists_eq_or_imp]
  exact key.congr fun u => by simp only [hmem]

/-- A stretch of numbers run through, where what arises from different
numbers differs. -/
theorem range' {S : γ → δ → Prop} {Q : Nat → γ → Prop} {f : Nat → List δ}
    (a n : Nat) (hf : ∀ k, a ≤ k → k < a + n → Enumerates S (Q k) (f k))
    (hdisjoint : ∀ k k' u, a ≤ k → a ≤ k' → Q k u → Q k' u → k = k') :
    Enumerates S (fun u => ∃ k, k ∈ List.range' a n ∧ Q k u)
      ((List.range' a n).flatMap f) := by
  refine (self List.nodup_range').flatMap (fun k _ hk heq => ?_)
    fun k k' u hk hk' => ?_
  · subst heq
    have hk := List.mem_range'_1.1 hk
    exact hf k hk.1 hk.2
  · exact hdisjoint k k' u (List.mem_range'_1.1 hk).1
      (List.mem_range'_1.1 hk').1

/-- The objects with a further property, in the order of their elements, and
what a function makes of the elements if it passes over those of all other
objects. -/
theorem select (h : Enumerates R P xs) [DecidablePred Q] {k : α → γ}
    {f : β → List γ}
    (hf : ∀ t x, P t → R t x → f x = if Q t then [k t] else []) :
    ∃ ts : List α, ts.Nodup ∧ (∀ t, t ∈ ts ↔ P t ∧ Q t)
      ∧ (∃ ys, ys.Sublist xs ∧ List.Forall₂ R ts ys)
      ∧ xs.flatMap f = ts.map k := by
  obtain ⟨ts, hnodup, hmem, hR⟩ := h
  have hP : ∀ t ∈ ts, P t := fun t ht => (hmem t).1 ht
  have key : (∃ ys, ys.Sublist xs ∧ List.Forall₂ R (ts.filter (Q ·)) ys)
      ∧ xs.flatMap f = (ts.filter (Q ·)).map k := by
    clear hmem hnodup
    induction hR with
    | nil => exact ⟨⟨[], .slnil, .nil⟩, rfl⟩
    | @cons t x ts xs htx hR ih =>
        obtain ⟨⟨ys, hsub, hys⟩, hmap⟩ :=
          ih fun t ht => hP t (List.mem_cons_of_mem _ ht)
        have hx := hf t x (hP t (List.mem_cons_self ..)) htx
        rw [List.flatMap_cons, hmap, hx, List.filter_cons]
        by_cases hQ : Q t
        · simp only [hQ, decide_true, if_true]
          exact ⟨⟨x :: ys, hsub.cons_cons x, .cons htx hys⟩, rfl⟩
        · simp only [hQ, decide_false, if_false, Bool.false_eq_true]
          exact ⟨⟨ys, hsub.cons x, hys⟩, rfl⟩
  refine ⟨ts.filter (Q ·), hnodup.filter _, fun t => ?_, key⟩
  rw [List.mem_filter, hmem, decide_eq_true_eq]

/-- Every element stands for an object. -/
theorem exists_of_mem (h : Enumerates R P xs) {x : β} (hx : x ∈ xs) :
    ∃ t, P t ∧ R t x := by
  obtain ⟨ts, -, hmem, hR⟩ := h
  have key : ∃ t ∈ ts, R t x := by
    clear hmem
    induction hR with
    | nil => cases hx
    | cons htx hR ih =>
        rcases List.mem_cons.1 hx with rfl | hx
        · exact ⟨_, List.mem_cons_self .., htx⟩
        · obtain ⟨t, ht, htx⟩ := ih hx
          exact ⟨t, List.mem_cons_of_mem _ ht, htx⟩
  obtain ⟨t, ht, htx⟩ := key
  exact ⟨t, (hmem t).1 ht, htx⟩

/-- Every object has an element. -/
theorem exists_mem (h : Enumerates R P xs) {t : α} (ht : P t) :
    ∃ x ∈ xs, R t x := by
  obtain ⟨ts, -, hmem, hR⟩ := h
  have ht := (hmem t).2 ht
  clear hmem
  induction hR with
  | nil => cases ht
  | cons htx hR ih =>
      rcases List.mem_cons.1 ht with rfl | ht
      · exact ⟨_, List.mem_cons_self .., htx⟩
      · obtain ⟨x, hx, htx⟩ := ih ht
        exact ⟨x, List.mem_cons_of_mem _ hx, htx⟩

end Enumerates

end LatticeParsing
