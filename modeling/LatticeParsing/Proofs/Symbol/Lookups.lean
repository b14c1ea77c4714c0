/-
Looking up what interning would give.

A vocabulary can be asked for a grammar symbol without interning it. It looks
for the spelling just as it is, while interning leaves the index out first, and
no symbol is spelled with an index (`base_eq_of_mem_nonterminals`). So the two
agree on the spellings without an index, and on those alone: a nonterminal that
is spelled with one is interned but never found (`indexed_spelling_is_missed`).
-/
import LatticeParsing.Proofs.Lattice.Tokens
import LatticeParsing.Proofs.Symbol.Calls

namespace LatticeParsing

namespace Vocabulary

variable {v : Vocabulary} {w : String} {s : Symbol}

/-- Nonterminals are listed without an index. -/
theorem base_eq_of_mem_nonterminals {calls : List VocabularyCall}
    (hw : w ∈ (ofCalls calls).nonterminals) : Label.base w = w := by
  have hlist := VocabularyCall.toList_foldl_enlist
    VocabularyCall.nonterminals_run rfl calls
  rw [← Array.mem_toList_iff, hlist, List.mem_eraseDups,
    List.mem_filterMap] at hw
  obtain ⟨call, -, hcall⟩ := hw
  cases call with
  | intern u =>
      obtain ⟨-, hu⟩ := Option.ite_none_right_eq_some.1 hcall
      injection hu with hu
      rw [← hu, Label.base_base]
  | internWord u => cases hcall
  | find u => cases hcall
  | spell t => cases hcall

/-- What is found has no index. -/
theorem base_eq_of_find? {calls : List VocabularyCall}
    (h : (ofCalls calls).find? w = some s) : Label.base w = w := by
  unfold find? at h
  split at h
  case isTrue =>
    have hw : w ∈ (ofCalls calls).nonterminals := by
      by_contra hw
      rw [nonterminal?_eq_none.2 hw] at h
      cases h
    exact base_eq_of_mem_nonterminals hw
  case isFalse hw => exact Label.base_of_word (Bool.eq_false_iff.2 hw)

/-- The spelling without the index is found just if the symbol is known. -/
theorem find?_base_eq_some_iff (h : v.Distinct) :
    v.find? (Label.base w) = some s ↔ v.intern w = (v, s) := by
  rw [find?_eq_some_iff h, intern_eq_iff h, Label.isNonterminal_base]

end Vocabulary

/-- To look a spelling up is to intern it without a change, if it has no index.
Whatever the calls on a vocabulary have been, a spelling is found under a
symbol just if it has no index and would be interned as that symbol with
nothing new; the spelling without the index is found just if the symbol of the
two would be given out again. So right after something has been interned, its
spelling without the index is found under its symbol, and its own spelling is
if that is the same. -/
theorem lookups_answer_without_index (calls : List VocabularyCall)
    (w : String) :
    let v := Vocabulary.ofCalls calls
    (∀ s, v.find? w = some s ↔ Label.base w = w ∧ v.intern w = (v, s))
      ∧ (∀ s, v.find? (Label.base w) = some s ↔ v.intern w = (v, s))
      ∧ (v.intern w).1.find? (Label.base w) = some (v.intern w).2
      ∧ (v.intern w).1.find? w
          = if Label.base w = w then some (v.intern w).2 else none := by
  intro v
  have hv : v.Distinct := VocabularyCall.distinct_ofCalls calls
  have hafter : Vocabulary.ofCalls (calls ++ [.intern w]) = (v.intern w).1 :=
    VocabularyCall.ofCalls_append calls [.intern w]
  have hfound : (v.intern w).1.find? (Label.base w)
      = some (v.intern w).2 := by
    rw [Vocabulary.find?_base_eq_some_iff (hv.intern w)]
    exact hv.intern_again .refl
  refine ⟨fun s => ⟨fun h => ?_, fun h => ?_⟩,
    fun s => Vocabulary.find?_base_eq_some_iff hv, hfound, ?_⟩
  · have hbase := Vocabulary.base_eq_of_find? h
    refine ⟨hbase, (Vocabulary.find?_base_eq_some_iff hv).1 ?_⟩
    rwa [hbase]
  · rw [← h.1]
    exact (Vocabulary.find?_base_eq_some_iff hv).2 h.2
  · by_cases hbase : Label.base w = w
    · rw [if_pos hbase]
      rwa [hbase] at hfound
    · rw [if_neg hbase, Option.eq_none_iff_forall_ne_some]
      intro s hs
      rw [← hafter] at hs
      exact hbase (Vocabulary.base_eq_of_find? hs)

/-- A nonterminal that has been interned with its index would be interned again
as the same symbol and with nothing new, but it is not found. -/
theorem indexed_spelling_is_missed :
    (Vocabulary.ofCalls [.intern "[X,1]"]).intern "[X,1]"
        = (Vocabulary.ofCalls [.intern "[X,1]"], -1)
      ∧ (Vocabulary.ofCalls [.intern "[X,1]"]).find? "[X,1]" = none := by
  have hbase : Label.base "[X,1]" = "[X]" :=
    @Label.base_indexed ['X'] ['1'] (by decide)
      (List.forall_mem_singleton.2 rfl) (by decide)
      (List.forall_mem_singleton.2 (Unicode.isDecimalDigit_of_isDigit rfl))
  have hlabel : Label.isNonterminal "[X,1]" = true := by decide
  have hnone : Vocabulary.nonterminal? {} (Label.base "[X,1]") = none := by
    simp [Vocabulary.nonterminal?]
  have hv : Vocabulary.ofCalls [.intern "[X,1]"] = ⟨#[], #["[X]"]⟩ := by
    simp only [Vocabulary.ofCalls, VocabularyCall.run, List.foldl_cons,
      List.foldl_nil, Vocabulary.intern_new hlabel hnone, hbase]
    rfl
  have hknown : Vocabulary.nonterminal? ⟨#[], #["[X]"]⟩ (Label.base "[X,1]")
      = some (-1) := by
    rw [hbase]
    simp [Vocabulary.nonterminal?]
  rw [hv]
  refine ⟨Vocabulary.intern_old hlabel hknown, ?_⟩
  unfold Vocabulary.find?
  rw [if_pos hlabel]
  simp [Vocabulary.nonterminal?]

end LatticeParsing
