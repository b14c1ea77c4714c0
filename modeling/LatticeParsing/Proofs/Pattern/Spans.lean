/-
What a pattern spans, and that the matcher finds it.

`Spans` says for each sign of a pattern which stretches of a word it spans,
with no regard to how they are found. The matcher is right about all places
of a word (`mem_ends`). The induction is on the pattern; a repetition is the
only sign at which something is to be shown. There the matcher applies the
inner pattern round by round and stops early, and for a repetition without an
upper bound it makes as many rounds as the word has places. That is enough,
since a stretch never leads backward: the parts that span nothing can be left
out, and of the others there are no more than characters (`Repeats.shorten`).
-/
import LatticeParsing.Pattern.Match
import LatticeParsing.Pattern.Normal
import Mathlib.Data.List.Basic

namespace LatticeParsing.Pattern

-- ================================================================ spans

/-- Whether `n` steps of a relation lead from `i` to `j`. -/
def Repeats (R : Nat → Nat → Prop) : Nat → Nat → Nat → Prop
  | 0, i, j => i = j
  | n + 1, i, j => ∃ k, R i k ∧ Repeats R n k j

/-- Whether a pattern spans the stretch of `w` from `i` to `j`. A repetition
whose upper bound lies below the lower one counts as one of exactly the lower
bound. -/
def Spans (w : List Char) : Pattern → Nat → Nat → Prop
  | empty, i, j => i = j
  | literal u, i, j => standsAt w u i = true ∧ i + u.length = j
  | set s, i, j =>
    (∃ c, w[i]? = some c ∧ s.contains c.toNat = true) ∧ i + 1 = j
  | anchor a, i, j => a.holds (before w i) w[i]? = true ∧ i = j
  | group _ p, i, j => p.Spans w i j
  | cat p q, i, j => ∃ k, p.Spans w i k ∧ q.Spans w k j
  | alt p q, i, j => p.Spans w i j ∨ q.Spans w i j
  | times p min max _, i, j => ∃ n, min ≤ n
      ∧ (∀ m, max = some m → n ≤ m ∨ n = min)
      ∧ Repeats (p.Spans w) n i j

variable {R : Nat → Nat → Prop} {w u v : List Char} {p q : Pattern}
  {s : Places} {f : Places → Places} {i j k m n : Nat}

-- =============================================================== repeats

namespace Repeats

theorem add_iff : Repeats R (m + n) i j
    ↔ ∃ k, Repeats R m i k ∧ Repeats R n k j := by
  induction m generalizing i with
  | zero =>
      rw [Nat.zero_add]
      constructor
      · exact fun h => ⟨i, rfl, h⟩
      · rintro ⟨k, rfl, h⟩
        exact h
  | succ m ih =>
      rw [Nat.succ_add]
      constructor
      · rintro ⟨k, hik, h⟩
        obtain ⟨k', hk, hj⟩ := ih.1 h
        exact ⟨k', ⟨k, hik, hk⟩, hj⟩
      · rintro ⟨k', ⟨k, hik, hk⟩, hj⟩
        exact ⟨k, hik, ih.2 ⟨k', hk, hj⟩⟩

/-- Steps that stay within bounds lead to a place within them. -/
theorem bounded (hR : ∀ a b, a ≤ n → R a b → a ≤ b ∧ b ≤ n) (hi : i ≤ n)
    (h : Repeats R m i j) : i ≤ j ∧ j ≤ n := by
  induction m generalizing i with
  | zero =>
      obtain rfl : i = j := h
      exact ⟨Nat.le_refl i, hi⟩
  | succ m ih =>
      obtain ⟨k, hik, hkj⟩ := h
      obtain ⟨hle, hk⟩ := hR i k hi hik
      obtain ⟨hle', hj⟩ := ih hk hkj
      exact ⟨Nat.le_trans hle hle', hj⟩

/-- Steps that lead nowhere can be left out. -/
theorem shorten (hR : ∀ a b, a ≤ n → R a b → a ≤ b ∧ b ≤ n) (hi : i ≤ n)
    (h : Repeats R m i j) : ∃ m', m' ≤ j - i ∧ Repeats R m' i j := by
  induction m generalizing i with
  | zero => exact ⟨0, Nat.zero_le _, h⟩
  | succ m ih =>
      obtain ⟨k, hik, hkj⟩ := h
      obtain ⟨hle, hk⟩ := hR i k hi hik
      obtain ⟨hle', -⟩ := hkj.bounded hR hk
      obtain ⟨m', hm', hshort⟩ := ih hk hkj
      rcases Nat.eq_or_lt_of_le hle with rfl | hlt
      · exact ⟨m', hm', hshort⟩
      · exact ⟨m' + 1, by omega, k, hik, hshort⟩

end Repeats

/-- A pattern spans stretches of the word, which lead forward. -/
theorem Spans.bounded (h : p.Spans w i j) (hi : i ≤ w.length) :
    i ≤ j ∧ j ≤ w.length := by
  induction p generalizing i j with
  | empty =>
      obtain rfl : i = j := h
      exact ⟨Nat.le_refl i, hi⟩
  | literal u =>
      obtain ⟨hu, rfl⟩ := h
      have hlen := (List.isPrefixOf_iff_prefix.1 hu).length_le
      rw [List.length_drop] at hlen
      omega
  | set s =>
      obtain ⟨⟨c, hc, -⟩, rfl⟩ := h
      have hlt := (List.getElem?_eq_some_iff.1 hc).1
      omega
  | anchor a =>
      obtain ⟨-, rfl⟩ := h
      exact ⟨Nat.le_refl i, hi⟩
  | group number p ih => exact ih h hi
  | cat p q ihp ihq =>
      obtain ⟨k, hp, hq⟩ := h
      obtain ⟨hle, hk⟩ := ihp hp hi
      obtain ⟨hle', hj⟩ := ihq hq hk
      exact ⟨Nat.le_trans hle hle', hj⟩
  | alt p q ihp ihq =>
      rcases h with h | h
      · exact ihp h hi
      · exact ihq h hi
  | times p min max isLazy ih =>
      obtain ⟨n, -, -, h⟩ := h
      exact h.bounded (fun a b ha hab => ih hab ha) hi

-- ================================================================ rounds

/-- Whether `f` takes each set of places up to `n` to the places to which a
step of `R` leads from it, and steps lead forward. -/
structure Steps (n : Nat) (R : Nat → Nat → Prop) (f : Places → Places) :
    Prop where
  bounded : ∀ a b, a ≤ n → R a b → a ≤ b ∧ b ≤ n
  mem : ∀ s : Places, (∀ i ∈ s, i ≤ n) → ∀ j, j ∈ f s ↔ ∃ i ∈ s, R i j

theorem mem_union {t : Places} :
    j ∈ Places.union n s t ↔ j ≤ n ∧ (j ∈ s ∨ j ∈ t) := by
  unfold Places.union
  rw [List.mem_filter, List.mem_range, Nat.lt_succ_iff, Bool.or_eq_true,
    List.contains_iff_mem, List.contains_iff_mem]

theorem iterate_fixed (h : f s = s) (m : Nat) : iterate f m s = s := by
  cases m with
  | zero => rfl
  | succ m =>
      unfold iterate
      rw [if_pos h]

namespace Steps

theorem le_of_mem (hf : Steps n R f) (hs : ∀ i ∈ s, i ≤ n) :
    ∀ j ∈ f s, j ≤ n := by
  intro j hj
  obtain ⟨i, hi, hij⟩ := (hf.mem s hs j).1 hj
  exact (hf.bounded i j (hs i hi) hij).2

/-- One round and then `m` steps make `m + 1` steps. -/
theorem exists_repeats_succ (hf : Steps n R f) (hs : ∀ i ∈ s, i ≤ n) :
    (∃ k ∈ f s, Repeats R m k j) ↔ ∃ i ∈ s, Repeats R (m + 1) i j := by
  constructor
  · rintro ⟨k, hk, hkj⟩
    obtain ⟨i, hi, hik⟩ := (hf.mem s hs k).1 hk
    exact ⟨i, hi, k, hik, hkj⟩
  · rintro ⟨i, hi, k, hik, hkj⟩
    exact ⟨k, (hf.mem s hs k).2 ⟨i, hi, hik⟩, hkj⟩

/-- Applying `f` again and again leads as far as so many steps. -/
theorem mem_iterate (hf : Steps n R f) (hs : ∀ i ∈ s, i ≤ n) :
    j ∈ iterate f m s ↔ ∃ i ∈ s, Repeats R m i j := by
  induction m generalizing s with
  | zero =>
      constructor
      · exact fun h => ⟨j, h, rfl⟩
      · rintro ⟨i, hi, rfl⟩
        exact hi
  | succ m ih =>
      rw [← hf.exists_repeats_succ hs]
      unfold iterate
      dsimp only
      split
      case isTrue hsame => rw [hsame, ← ih hs, iterate_fixed hsame]
      case isFalse => exact ih (hf.le_of_mem hs)

theorem le_of_mem_iterate (hf : Steps n R f) (hs : ∀ i ∈ s, i ≤ n) :
    ∀ j ∈ iterate f m s, j ≤ n := by
  intro j hj
  obtain ⟨i, hi, hij⟩ := (hf.mem_iterate hs).1 hj
  exact (hij.bounded hf.bounded (hs i hi)).2

/-- Steps after rounds are steps in all. -/
theorem exists_repeats_iterate {k : Nat} (hf : Steps n R f)
    (hs : ∀ i ∈ s, i ≤ n) :
    (∃ i ∈ iterate f k s, Repeats R m i j)
      ↔ ∃ i ∈ s, Repeats R (k + m) i j := by
  constructor
  · rintro ⟨i', hi', hj⟩
    obtain ⟨i, hi, hii'⟩ := (hf.mem_iterate hs).1 hi'
    exact ⟨i, hi, Repeats.add_iff.2 ⟨i', hii', hj⟩⟩
  · rintro ⟨i, hi, hij⟩
    obtain ⟨i', hii', hj⟩ := Repeats.add_iff.1 hij
    exact ⟨i', (hf.mem_iterate hs).2 ⟨i, hi, hii'⟩, hj⟩

/-- A set that a round adds nothing to is all that is within reach. -/
theorem mem_of_fixed (hf : Steps n R f) (hs : ∀ i ∈ s, i ≤ n)
    (hfix : ∀ j ∈ f s, j ∈ s) (hi : i ∈ s) (h : Repeats R m i j) : j ∈ s := by
  induction m generalizing i with
  | zero =>
      obtain rfl : i = j := h
      exact hi
  | succ m ih =>
      obtain ⟨k, hik, hkj⟩ := h
      exact ih (hfix k ((hf.mem s hs k).2 ⟨i, hi, hik⟩)) hkj

/-- So many rounds reach as far as at most so many steps. -/
theorem mem_reach (hf : Steps n R f) (hs : ∀ i ∈ s, i ≤ n) :
    j ∈ reach n f m s ↔ ∃ m' ≤ m, ∃ i ∈ s, Repeats R m' i j := by
  induction m generalizing s with
  | zero =>
      constructor
      · exact fun h => ⟨0, Nat.le_refl 0, j, h, rfl⟩
      · rintro ⟨m', hm', i, hi, hij⟩
        obtain rfl : m' = 0 := Nat.le_zero.1 hm'
        obtain rfl : i = j := hij
        exact hi
  | succ m ih =>
      have hunion : ∀ i ∈ Places.union n s (f s), i ≤ n :=
        fun i hi => (mem_union.1 hi).1
      unfold reach
      dsimp only
      split
      case isTrue hsame =>
        have hfix : ∀ k ∈ f s, k ∈ s := fun k hk => by
          rw [← hsame]
          exact mem_union.2 ⟨hf.le_of_mem hs k hk, Or.inr hk⟩
        constructor
        · exact fun h => ⟨0, Nat.zero_le _, j, h, rfl⟩
        · rintro ⟨m', -, i, hi, hij⟩
          exact hf.mem_of_fixed hs hfix hi hij
      case isFalse =>
        rw [ih hunion]
        constructor
        · rintro ⟨m', hm', i, hi, hij⟩
          rcases (mem_union.1 hi).2 with hi | hi
          · exact ⟨m', by omega, i, hi, hij⟩
          · obtain ⟨k, hk, hkj⟩ :=
              (hf.exists_repeats_succ hs).1 ⟨i, hi, hij⟩
            exact ⟨m' + 1, by omega, k, hk, hkj⟩
        · rintro ⟨m', hm', i, hi, hij⟩
          cases m' with
          | zero =>
              exact ⟨0, Nat.zero_le m, i, mem_union.2 ⟨hs i hi, Or.inl hi⟩, hij⟩
          | succ m' =>
              obtain ⟨k, hk, hkj⟩ :=
                (hf.exists_repeats_succ hs).2 ⟨i, hi, hij⟩
              exact ⟨m', by omega, k,
                mem_union.2 ⟨hf.le_of_mem hs k hk, Or.inr hk⟩, hkj⟩

/-- As many rounds as there are places reach as far as any number of steps. -/
theorem mem_reach_all (hf : Steps n R f) (hs : ∀ i ∈ s, i ≤ n) :
    j ∈ reach n f (n + 1) s ↔ ∃ m, ∃ i ∈ s, Repeats R m i j := by
  rw [hf.mem_reach hs]
  constructor
  · rintro ⟨m, -, h⟩
    exact ⟨m, h⟩
  · rintro ⟨m, i, hi, hij⟩
    obtain ⟨m', hm', hshort⟩ := hij.shorten hf.bounded (hs i hi)
    obtain ⟨-, hj⟩ := hij.bounded hf.bounded (hs i hi)
    exact ⟨m', by omega, i, hi, hshort⟩

end Steps

-- =============================================================== matcher

/-- A repetition is matched by its lower bound of rounds, and then by as many
as its upper bound leaves. -/
theorem mem_ends_times {min : Nat} {max : Option Nat} {isLazy : Bool}
    (hf : Steps w.length (p.Spans w) (p.ends w))
    (hs : ∀ i ∈ s, i ≤ w.length) :
    j ∈ (times p min max isLazy).ends w s
      ↔ ∃ i ∈ s, (times p min max isLazy).Spans w i j := by
  have hfirst : ∀ i ∈ iterate (p.ends w) min s, i ≤ w.length :=
    hf.le_of_mem_iterate hs
  unfold ends
  cases max with
  | none =>
      dsimp only
      rw [hf.mem_reach_all hfirst]
      simp only [hf.exists_repeats_iterate hs]
      constructor
      · rintro ⟨m, i, hi, hij⟩
        exact ⟨i, hi, min + m, Nat.le_add_right .., nofun, hij⟩
      · rintro ⟨i, hi, n, hmin, -, hij⟩
        obtain ⟨m, rfl⟩ := Nat.exists_eq_add_of_le hmin
        exact ⟨m, i, hi, hij⟩
  | some max =>
      dsimp only
      rw [hf.mem_reach hfirst]
      simp only [hf.exists_repeats_iterate hs]
      constructor
      · rintro ⟨m, hm, i, hi, hij⟩
        refine ⟨i, hi, min + m, Nat.le_add_right .., fun m' hm' => ?_, hij⟩
        obtain rfl : max = m' := by injection hm'
        omega
      · rintro ⟨i, hi, n, hmin, hmax, hij⟩
        obtain ⟨m, rfl⟩ := Nat.exists_eq_add_of_le hmin
        have hle := hmax max rfl
        exact ⟨m, by omega, i, hi, hij⟩

/-- The matcher finds where the stretches end that a pattern spans. -/
theorem mem_ends (p : Pattern) (hs : ∀ i ∈ s, i ≤ w.length) :
    j ∈ p.ends w s ↔ ∃ i ∈ s, p.Spans w i j := by
  induction p generalizing s j with
  | empty =>
      constructor
      · exact fun h => ⟨j, h, rfl⟩
      · rintro ⟨i, hi, rfl⟩
        exact hi
  | literal u => simp [ends, Spans]
  | set c => simp [ends, Spans, Option.any_eq_true]
  | anchor a => simp [ends, Spans]
  | group number p ih => exact ih hs
  | cat p q ihp ihq =>
      have hp : ∀ k ∈ p.ends w s, k ≤ w.length := by
        intro k hk
        obtain ⟨i, hi, hik⟩ := (ihp hs).1 hk
        exact (hik.bounded (hs i hi)).2
      show j ∈ q.ends w (p.ends w s) ↔ _
      rw [ihq hp]
      constructor
      · rintro ⟨k, hk, hkj⟩
        obtain ⟨i, hi, hik⟩ := (ihp hs).1 hk
        exact ⟨i, hi, k, hik, hkj⟩
      · rintro ⟨i, hi, k, hik, hkj⟩
        exact ⟨k, (ihp hs).2 ⟨i, hi, hik⟩, hkj⟩
  | alt p q ihp ihq =>
      show j ∈ Places.union w.length (p.ends w s) (q.ends w s) ↔ _
      rw [mem_union, ihp hs, ihq hs]
      constructor
      · rintro ⟨-, ⟨i, hi, hij⟩ | ⟨i, hi, hij⟩⟩
        · exact ⟨i, hi, Or.inl hij⟩
        · exact ⟨i, hi, Or.inr hij⟩
      · rintro ⟨i, hi, hij⟩
        refine ⟨(Spans.bounded hij (hs i hi)).2, ?_⟩
        rcases hij with hij | hij
        · exact Or.inl ⟨i, hi, hij⟩
        · exact Or.inr ⟨i, hi, hij⟩
  | times p min max isLazy ih =>
      have hf : Steps w.length (p.Spans w) (p.ends w) :=
        ⟨fun a b ha hab => hab.bounded ha, fun s hs j => ih hs⟩
      exact mem_ends_times hf hs

/-- A search finds a pattern that spans some stretch of the word. -/
theorem search_eq_true (p : Pattern) (w : List Char) : p.search w = true
    ↔ ∃ i j, i ≤ w.length ∧ p.Spans w i j := by
  have hs : ∀ i ∈ List.range (w.length + 1), i ≤ w.length :=
    fun i hi => Nat.lt_succ_iff.1 (List.mem_range.1 hi)
  unfold search
  rw [Bool.not_eq_true', List.isEmpty_eq_false_iff_exists_mem]
  constructor
  · rintro ⟨j, hj⟩
    obtain ⟨i, hi, hij⟩ := (mem_ends p hs).1 hj
    exact ⟨i, j, hs i hi, hij⟩
  · rintro ⟨i, j, hi, hij⟩
    exact ⟨j, (mem_ends p hs).2
      ⟨i, List.mem_range.2 (Nat.lt_succ_of_le hi), hij⟩⟩

-- ======================================================== concatenations

/-- Characters stand at a place if the first of them stand there and the
others behind them. -/
theorem standsAt_append (w u v : List Char) (i : Nat) :
    standsAt w (u ++ v) i = true
      ↔ standsAt w u i = true ∧ standsAt w v (i + u.length) = true := by
  unfold standsAt
  rw [List.isPrefixOf_iff_prefix, List.isPrefixOf_iff_prefix,
    List.isPrefixOf_iff_prefix, ← List.drop_drop]
  constructor
  · rintro ⟨t, ht⟩
    rw [← ht, List.append_assoc]
    exact ⟨List.prefix_append u _, by simp⟩
  · rintro ⟨⟨t, ht⟩, hv⟩
    rw [← ht, List.drop_left] at hv
    rw [← ht]
    exact List.prefix_append_right_inj u |>.2 hv

/-- A literal spans what its first characters span and then the others. -/
theorem spans_literal_append (w u v : List Char) (i j : Nat) :
    (literal (u ++ v)).Spans w i j
      ↔ (cat (literal u) (literal v)).Spans w i j := by
  unfold Spans Spans
  rw [standsAt_append, List.length_append, ← Nat.add_assoc]
  constructor
  · rintro ⟨⟨hu, hv⟩, rfl⟩
    exact ⟨i + u.length, ⟨hu, rfl⟩, hv, rfl⟩
  · rintro ⟨k, ⟨hu, rfl⟩, hv, rfl⟩
    exact ⟨⟨hu, hv⟩, rfl⟩

/-- It makes no difference how three patterns in a row are put together. -/
theorem spans_cat_assoc (w : List Char) (p q r : Pattern) (i j : Nat) :
    (cat (cat p q) r).Spans w i j ↔ (cat p (cat q r)).Spans w i j := by
  constructor
  · rintro ⟨k, ⟨k', hp, hq⟩, hr⟩
    exact ⟨k', hp, k, hq, hr⟩
  · rintro ⟨k, hp, k', hq, hr⟩
    exact ⟨k', ⟨k, hp, hq⟩, hr⟩

/-- Patterns that span the same do so before a third pattern. -/
theorem spans_cat_congr {p p' q q' : Pattern}
    (hp : ∀ i j, p.Spans w i j ↔ p'.Spans w i j)
    (hq : ∀ i j, q.Spans w i j ↔ q'.Spans w i j) (i j : Nat) :
    (cat p q).Spans w i j ↔ (cat p' q').Spans w i j :=
  exists_congr fun k => and_congr (hp i k) (hq k j)

theorem spans_prepend (p q : Pattern) (i j : Nat) :
    (prepend p q).Spans w i j ↔ (cat p q).Spans w i j := by
  unfold prepend
  split
  · exact ⟨fun h => ⟨i, rfl, h⟩, fun ⟨k, hk, h⟩ => hk ▸ h⟩
  · exact ⟨fun h => ⟨j, h, rfl⟩, fun ⟨k, h, hk⟩ => hk ▸ h⟩
  · exact spans_literal_append ..
  case h_4 u v q =>
    rw [← spans_cat_assoc]
    exact spans_cat_congr (spans_literal_append w u v) (fun _ _ => Iff.rfl) i j
  · rfl

theorem spans_append (p q : Pattern) (i j : Nat) :
    (append p q).Spans w i j ↔ (cat p q).Spans w i j := by
  induction p generalizing i j with
  | cat p r _ ih =>
      unfold append
      rw [spans_prepend, spans_cat_assoc]
      exact spans_cat_congr (fun _ _ => Iff.rfl) (fun i j => ih i j) i j
  | _ => exact spans_prepend ..

end LatticeParsing.Pattern
