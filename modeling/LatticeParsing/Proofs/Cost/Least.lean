/-
The least of several costs.

Costs are compared from left to right. The operations on floating-point
numbers are not opened by proofs, so what depends on how numbers compare is
said under `Cost.Lawful`: going through the same costs once more changes
nothing (`leastOf_replicate`).
-/
import LatticeParsing.Cost.Basic

namespace LatticeParsing.Cost

/-- The least of some costs, compared from left to right; there is none if
there are no costs. -/
def leastOf : List Cost → Option Cost
  | [] => none
  | c :: cs => some (cs.foldl least c)

theorem leastOf_concat {cs : List Cost} {m : Cost}
    (h : leastOf cs = some m) (c : Cost) :
    leastOf (cs ++ [c]) = some (m.least c) := by
  cases cs with
  | nil => cases h
  | cons b cs =>
      injection h with h
      subst h
      simp [leastOf]

theorem leastOf_append {cs : List Cost} {m : Cost} (h : leastOf cs = some m)
    (ds : List Cost) : leastOf (cs ++ ds) = some (ds.foldl least m) := by
  cases cs with
  | nil => cases h
  | cons c cs =>
      injection h with h
      subst h
      simp [leastOf]

/-- How numbers compare: a NaN is less than nothing, and the others are in
order. -/
structure Lawful : Prop where
  not_nan_lt : ∀ a b : Cost, a.isNaN = true → ¬ a < b
  irrefl : ∀ a : Cost, ¬ a < a
  trans : ∀ a b c : Cost, a < b → b < c → a < c
  lt_of_not_lt : ∀ a b c : Cost, ¬ a.isNaN = true → ¬ c.isNaN = true →
    b < c → ¬ a < c → b < a

/-- No cost is less than the least one. -/
theorem not_lt_foldl (h : Lawful) {m : Cost} (hm : ¬ m.isNaN = true)
    (cs : List Cost) (c : Cost) (hfold : cs.foldl least c = m) :
    ∀ b ∈ c :: cs, ¬ b < m := by
  induction cs generalizing c with
  | nil =>
      have hcm : c = m := hfold
      subst hcm
      simpa using h.irrefl c
  | cons d cs ih =>
      have hrest := ih (c.least d) hfold
      have hfirst := hrest (c.least d) (List.mem_cons_self ..)
      have hboth : ¬ c < m ∧ ¬ d < m := by
        unfold least at hfirst
        split at hfirst
        case isTrue hnan => exact ⟨h.not_nan_lt c m hnan, hfirst⟩
        case isFalse hnan =>
          split at hfirst
          case isTrue hlt =>
            exact ⟨fun hc => hfirst (h.trans d c m hlt hc), hfirst⟩
          case isFalse hlt =>
            exact ⟨hfirst, fun hd =>
              hlt (h.lt_of_not_lt c d m hnan hm hd hfirst)⟩
      intro b hb
      rcases List.mem_cons.1 hb with rfl | hb
      · exact hboth.1
      rcases List.mem_cons.1 hb with rfl | hb
      · exact hboth.2
      · exact hrest b (List.mem_cons_of_mem _ hb)

/-- Going through costs again does not change their least one. -/
theorem foldl_least_self (h : Lawful) {cs : List Cost} {m : Cost}
    (hm : leastOf cs = some m) : cs.foldl least m = m := by
  cases cs with
  | nil => rfl
  | cons c cs =>
      injection hm with hm
      -- a NaN gives way to the first cost, and the rest goes as before
      by_cases hnan : m.isNaN = true
      · have hfirst : m.least c = c := if_pos hnan
        rw [List.foldl_cons, hfirst, hm]
      · have hnot := not_lt_foldl h hnan cs c hm
        have hkeep : ∀ ds : List Cost, (∀ d ∈ ds, ¬ d < m) →
            ds.foldl least m = m := by
          intro ds hds
          induction ds with
          | nil => rfl
          | cons d ds ih =>
              have hstep : m.least d = m := by
                unfold least
                rw [if_neg hnan, if_neg (hds d (List.mem_cons_self ..))]
              rw [List.foldl_cons, hstep]
              exact ih fun e he => hds e (List.mem_cons_of_mem _ he)
        exact hkeep _ hnot

theorem leastOf_replicate (h : Lawful) {n : Nat} (hn : 0 < n)
    (cs : List Cost) :
    leastOf (List.replicate n cs).flatten = leastOf cs := by
  cases hm : leastOf cs with
  | none =>
      cases cs with
      | nil => simp [leastOf]
      | cons c cs => cases hm
  | some m =>
      obtain ⟨k, rfl⟩ := Nat.exists_eq_succ_of_ne_zero (Nat.ne_of_gt hn)
      have hagain : ∀ k, (List.replicate k cs).flatten.foldl least m = m := by
        intro k
        induction k with
        | zero => rfl
        | succ k ih =>
            rw [List.replicate_succ, List.flatten_cons, List.foldl_append,
              foldl_least_self h hm, ih]
      rw [List.replicate_succ, List.flatten_cons, leastOf_append hm, hagain]

end LatticeParsing.Cost
