/-
Spellings with an index and without.

A nonterminal's spelling has something between its brackets
(`Label.inside?_eq_some`), and the text before an index has neither a comma
nor a closing bracket in it. So the spelling without an index is again that
of a nonterminal, and carries no index any more (`Label.base_base`,
`Label.isNonterminal_base`).
-/
import LatticeParsing.Symbol.Label
import Mathlib.Data.List.TakeWhile

namespace LatticeParsing.Label

variable {cs body stem : List Char} {w : String}

theorem inside?_eq_some :
    inside? cs = some body ↔ body ≠ [] ∧ cs = '[' :: (body ++ [']']) := by
  constructor
  · intro h
    unfold inside? at h
    split at h
    case h_2 => cases h
    case h_1 rest =>
      split at h
      case isFalse => cases h
      case isTrue hform =>
        simp only [Bool.and_eq_true, decide_eq_true_eq, beq_iff_eq] at hform
        obtain ⟨hlength, hlast⟩ := hform
        obtain ⟨init, rfl⟩ := List.getLast?_eq_some_iff.1 hlast
        rw [List.dropLast_concat] at h
        injection h with h
        subst h
        refine ⟨?_, rfl⟩
        rintro rfl
        simp at hlength
  · rintro ⟨hne, rfl⟩
    have hlength := List.length_pos_iff.2 hne
    simp [inside?, hlength]

/-- What stands before an index has no comma and no closing bracket. -/
theorem of_stem?_eq_some (h : stem? body = some stem) :
    stem ≠ [] ∧ ∀ c ∈ stem, (c != ']' && c != ',') = true := by
  unfold stem? at h
  simp only at h
  split at h
  case h_2 => cases h
  case h_1 =>
    split at h
    case isFalse => cases h
    case isTrue hform =>
      injection h with h
      simp only [Bool.and_eq_true, Bool.not_eq_true', List.isEmpty_eq_false_iff]
        at hform
      rw [← h]
      exact ⟨hform.1.1, fun _ hc =>
        List.mem_takeWhile_imp (p := fun c => c != ']' && c != ',') hc⟩

/-- The text before an index is the start of what stands between the
brackets. -/
theorem prefix_of_stem?_eq_some (h : stem? body = some stem) :
    stem <+: body := by
  unfold stem? at h
  simp only at h
  split at h
  case h_2 => cases h
  case h_1 =>
    split at h
    case isFalse => cases h
    case isTrue =>
      injection h with h
      rw [← h]
      exact List.takeWhile_prefix _

/-- Without commas there is no index. -/
theorem stem?_eq_none
    (h : ∀ c ∈ body, (c != ']' && c != ',') = true) : stem? body = none := by
  unfold stem?
  rw [List.dropWhile_eq_nil_iff.2 h]

/-- A word keeps its spelling, or it is spelled with an index that is left
out. -/
theorem base_cases (w : String) :
    base w = w
      ∨ ∃ body stem, inside? w.toList = some body ∧ stem? body = some stem
          ∧ base w = String.ofList ('[' :: (stem ++ [']'])) := by
  cases hbody : inside? w.toList with
  | none =>
      left
      unfold base
      rw [hbody]
      rfl
  | some body =>
      cases hstem : stem? body with
      | none =>
          left
          unfold base
          rw [hbody, Option.bind_some, hstem]
      | some stem =>
          refine Or.inr ⟨body, stem, rfl, hstem, ?_⟩
          unfold base
          rw [hbody, Option.bind_some, hstem]
          rfl

/-- An index is told from the text before it. -/
theorem stem?_indexed {index : List Char} (hstem : stem ≠ [])
    (hplain : ∀ c ∈ stem, (c != ']' && c != ',') = true) (hindex : index ≠ [])
    (hdigits : ∀ c ∈ index, Unicode.isDecimalDigit c = true) :
    stem? (stem ++ ',' :: index) = some stem := by
  have htake : (stem ++ ',' :: index).takeWhile (fun c => c != ']' && c != ',')
      = stem := by
    rw [List.takeWhile_append_of_pos hplain]
    simp
  have hdrop : (stem ++ ',' :: index).dropWhile (fun c => c != ']' && c != ',')
      = ',' :: index := by
    rw [List.dropWhile_append_of_pos hplain]
    simp
  unfold stem?
  simp only [htake, hdrop, List.all_eq_true.2 hdigits]
  simp [hstem, hindex]

/-- An index is left out. -/
theorem base_indexed {index : List Char} (hstem : stem ≠ [])
    (hplain : ∀ c ∈ stem, (c != ']' && c != ',') = true) (hindex : index ≠ [])
    (hdigits : ∀ c ∈ index, Unicode.isDecimalDigit c = true) :
    base (String.ofList ('[' :: (stem ++ ',' :: index ++ [']'])))
      = String.ofList ('[' :: (stem ++ [']'])) := by
  have hinside : inside? ('[' :: (stem ++ ',' :: index ++ [']']))
      = some (stem ++ ',' :: index) :=
    inside?_eq_some.2 ⟨by simp, rfl⟩
  unfold base
  rw [String.toList_ofList, hinside, Option.bind_some,
    stem?_indexed hstem hplain hindex hdigits]
  rfl

/-- A word that is no nonterminal carries no index. -/
theorem base_of_word (hw : isNonterminal w = false) : base w = w := by
  rcases base_cases w with h | ⟨body, stem, hbody, -⟩
  · exact h
  · unfold isNonterminal at hw
    rw [hbody] at hw
    cases hw

theorem base_base (w : String) : base (base w) = base w := by
  rcases base_cases w with h | ⟨body, stem, -, hstem, h⟩
  · rw [h, h]
  · obtain ⟨hne, hplain⟩ := of_stem?_eq_some hstem
    have hinside : inside? (base w).toList = some stem := by
      rw [h, String.toList_ofList, inside?_eq_some]
      exact ⟨hne, rfl⟩
    rcases base_cases (base w) with h' | ⟨body', stem', hbody', hstem', -⟩
    · exact h'
    · rw [hinside] at hbody'
      injection hbody' with hbody'
      rw [← hbody', stem?_eq_none hplain] at hstem'
      cases hstem'

theorem isNonterminal_base (w : String) :
    isNonterminal (base w) = isNonterminal w := by
  rcases base_cases w with h | ⟨body, stem, hbody, hstem, h⟩
  · rw [h]
  · have hinside : inside? (base w).toList = some stem := by
      rw [h, String.toList_ofList, inside?_eq_some]
      exact ⟨(of_stem?_eq_some hstem).1, rfl⟩
    unfold isNonterminal
    rw [hinside, hbody]
    rfl

end LatticeParsing.Label
