/-
Symbols keep their spellings.

A vocabulary that is shared grows whenever someone interns a word or a
grammar symbol (`Vocabulary.Grows`). Interning only ever puts a spelling
behind those that there are, so a symbol that has a spelling keeps it
(`Grows.word?`), and a symbol that has been given out has one
(`word?_internWord`, `word?_intern`). The spelling of a grammar symbol tells
its kind (`IsGrammarSymbol`); that of a word need not.
-/
import LatticeParsing.Proofs.Symbol.Interning
import LatticeParsing.Proofs.Symbol.Labels

namespace LatticeParsing.Vocabulary

variable {v v' v'' : Vocabulary} {w u : String} {s : Symbol}

/-- Whether a vocabulary can become another as words and grammar symbols are
interned. -/
inductive Grows (v : Vocabulary) : Vocabulary → Prop
  | refl : Grows v v
  | intern {v' : Vocabulary} (w : String) : Grows v v' →
      Grows v (v'.intern w).1
  | internWord {v' : Vocabulary} (w : String) : Grows v v' →
      Grows v (v'.internWord w).1

theorem Grows.trans (h : v.Grows v') (h' : v'.Grows v'') : v.Grows v'' := by
  induction h' with
  | refl => exact h
  | intern w _ ih => exact ih.intern w
  | internWord w _ ih => exact ih.internWord w

-- ============================================================ spellings

theorem nonterminal?_eq_some : v.nonterminal? w = some s
    ↔ ∃ n : Nat, v.nonterminals.idxOf? w = some n ∧ -((n : Int) + 1) = s := by
  unfold nonterminal?
  cases v.nonterminals.idxOf? w <;> simp

/-- A new nonterminal becomes the next one. -/
theorem intern_new (hw : Label.isNonterminal w = true)
    (h : v.nonterminal? (Label.base w) = none) :
    v.intern w
      = ({ v with nonterminals := v.nonterminals.push (Label.base w) },
          -((v.nonterminals.size : Int) + 1)) := by
  unfold intern
  rw [if_pos hw]
  simp only [h]

theorem intern_old (hw : Label.isNonterminal w = true)
    (h : v.nonterminal? (Label.base w) = some s) : v.intern w = (v, s) := by
  unfold intern
  rw [if_pos hw]
  simp only [h]

/-- A grammar symbol that is no nonterminal is interned as a word. -/
theorem intern_word (hw : Label.isNonterminal w = false) :
    v.intern w = v.internWord w := by
  unfold intern
  rw [hw]
  rfl

theorem word?_terminal (v : Vocabulary) (n : Nat) :
    v.word? ((n : Int) + 1) = v.terminals[n]? := rfl

theorem word?_nonterminal (v : Vocabulary) (n : Nat) :
    v.word? (-((n : Int) + 1)) = v.nonterminals[n]? := by
  rw [← Int.negSucc_eq]
  rfl

/-- Another terminal leaves the spellings alone. -/
theorem word?_pushTerminal (h : v.word? s = some u) (w : String) :
    ({ v with terminals := v.terminals.push w } : Vocabulary).word? s
      = some u := by
  unfold word? at h ⊢
  split at h
  · cases h
  · rename_i n
    have hn := (Array.getElem?_eq_some_iff.1 h).1
    simp only [Array.getElem?_push, Nat.ne_of_lt hn, if_false]
    exact h
  · exact h

/-- Another nonterminal leaves the spellings alone. -/
theorem word?_pushNonterminal (h : v.word? s = some u) (w : String) :
    ({ v with nonterminals := v.nonterminals.push w } : Vocabulary).word? s
      = some u := by
  unfold word? at h ⊢
  split at h
  · cases h
  · exact h
  · rename_i n
    have hn := (Array.getElem?_eq_some_iff.1 h).1
    simp only [Array.getElem?_push, Nat.ne_of_lt hn, if_false]
    exact h

theorem word?_of_internWord (h : v.word? s = some u) (w : String) :
    (v.internWord w).1.word? s = some u := by
  cases hw : v.terminal? w with
  | some t => rwa [internWord_old hw]
  | none =>
      rw [internWord_new hw]
      exact word?_pushTerminal h w

theorem word?_of_intern (h : v.word? s = some u) (w : String) :
    (v.intern w).1.word? s = some u := by
  by_cases hw : Label.isNonterminal w = true
  · cases hbase : v.nonterminal? (Label.base w) with
    | some t => rwa [intern_old hw hbase]
    | none =>
        rw [intern_new hw hbase]
        exact word?_pushNonterminal h _
  · rw [intern_word (Bool.eq_false_iff.2 hw)]
    exact word?_of_internWord h w

/-- A symbol keeps its spelling whatever is interned later. -/
theorem Grows.word? (h : v.Grows v') (hs : v.word? s = some u) :
    v'.word? s = some u := by
  induction h with
  | refl => exact hs
  | intern w _ ih => exact word?_of_intern ih w
  | internWord w _ ih => exact word?_of_internWord ih w

theorem getElem?_of_idxOf? {words : Array String} {n : Nat}
    (h : words.idxOf? w = some n) : words[n]? = some w := by
  obtain ⟨words⟩ := words
  rw [List.idxOf?_toArray, List.idxOf?, List.findIdx?_eq_some_iff_getElem] at h
  obtain ⟨hn, hw, -⟩ := h
  simp only [List.getElem?_toArray, List.getElem?_eq_getElem hn,
    eq_of_beq hw]

/-- The symbol of a word is spelled like the word. -/
theorem word?_internWord (v : Vocabulary) (w : String) :
    (v.internWord w).1.word? (v.internWord w).2 = some w := by
  cases h : v.terminal? w with
  | some s =>
      obtain ⟨n, hn, rfl⟩ := terminal?_eq_some.1 h
      rw [internWord_old h, word?_terminal]
      exact getElem?_of_idxOf? hn
  | none =>
      rw [internWord_new h, word?_terminal]
      simp

/-- A grammar symbol is spelled without an index. -/
theorem word?_intern (v : Vocabulary) (w : String) :
    (v.intern w).1.word? (v.intern w).2 = some (Label.base w) := by
  cases hw : Label.isNonterminal w with
  | true =>
      cases h : v.nonterminal? (Label.base w) with
      | some s =>
          obtain ⟨n, hn, rfl⟩ := nonterminal?_eq_some.1 h
          rw [intern_old hw h, word?_nonterminal]
          exact getElem?_of_idxOf? hn
      | none =>
          rw [intern_new hw h, word?_nonterminal]
          simp
  | false =>
      rw [intern_word hw, Label.base_of_word hw]
      exact v.word?_internWord w

-- ================================================================ kinds

theorem terminal_pos (n : Nat) : (0 : Symbol) < (n : Int) + 1 :=
  Int.lt_add_one_of_le (Int.natCast_nonneg n)

theorem nonterminal_neg (n : Nat) : -((n : Int) + 1) < (0 : Symbol) :=
  Int.neg_neg_of_pos (terminal_pos n)

theorem internWord_pos (v : Vocabulary) (w : String) :
    0 < (v.internWord w).2 := by
  cases h : v.terminal? w with
  | none =>
      rw [internWord_new h]
      exact terminal_pos _
  | some s =>
      obtain ⟨n, -, rfl⟩ := terminal?_eq_some.1 h
      rw [internWord_old h]
      exact terminal_pos n

/-- The symbol of a grammar symbol is negative just if that is spelled like a
nonterminal. -/
theorem intern_neg_iff (v : Vocabulary) (w : String) :
    (v.intern w).2 < 0 ↔ Label.isNonterminal w = true := by
  cases hw : Label.isNonterminal w with
  | false =>
      rw [intern_word hw]
      exact iff_of_false (Int.lt_asymm (v.internWord_pos w))
        Bool.false_ne_true
  | true =>
      refine iff_of_true ?_ rfl
      cases h : v.nonterminal? (Label.base w) with
      | none =>
          rw [intern_new hw h]
          exact nonterminal_neg _
      | some s =>
          obtain ⟨n, -, rfl⟩ := nonterminal?_eq_some.1 h
          rw [intern_old hw h]
          exact nonterminal_neg n

/-- Whether a symbol has a spelling that tells its kind. Words that are
spelled like nonterminals do not: they are terminals all the same. -/
def IsGrammarSymbol (v : Vocabulary) (s : Symbol) : Prop :=
  ∃ w, v.word? s = some w ∧ (s < 0 ↔ Label.isNonterminal w = true)

theorem Grows.isGrammarSymbol (h : v.Grows v') (hs : v.IsGrammarSymbol s) :
    v'.IsGrammarSymbol s := by
  obtain ⟨w, hw, hsign⟩ := hs
  exact ⟨w, h.word? hw, hsign⟩

theorem isGrammarSymbol_intern (v : Vocabulary) (w : String) :
    (v.intern w).1.IsGrammarSymbol (v.intern w).2 := by
  refine ⟨Label.base w, v.word?_intern w, ?_⟩
  rw [Label.isNonterminal_base]
  exact v.intern_neg_iff w

-- ============================================================ sequences

theorem grows_internAll (v : Vocabulary) (ws : List String) :
    v.Grows (v.internAll ws).1 := by
  induction ws generalizing v with
  | nil => exact .refl
  | cons w ws ih => exact (Grows.refl.intern w).trans (ih _)

theorem isGrammarSymbol_internAll (v : Vocabulary) (ws : List String) :
    ∀ s ∈ (v.internAll ws).2, (v.internAll ws).1.IsGrammarSymbol s := by
  induction ws generalizing v with
  | nil => exact fun _ hs => by cases hs
  | cons w ws ih =>
      intro s hs
      rcases List.mem_cons.1 hs with rfl | hs
      · exact ((v.intern w).1.grows_internAll ws).isGrammarSymbol
          (v.isGrammarSymbol_intern w)
      · exact ih _ s hs

theorem grows_internWords (v : Vocabulary) (ws : List String) :
    v.Grows (v.internWords ws).1 := by
  induction ws generalizing v with
  | nil => exact .refl
  | cons w ws ih => exact (Grows.refl.internWord w).trans (ih _)

/-- The symbols of words are spelled like the words, one by one. -/
theorem word?_internWords (v : Vocabulary) (ws : List String) :
    (v.internWords ws).2.map (v.internWords ws).1.word? = ws.map some := by
  induction ws generalizing v with
  | nil => rfl
  | cons w ws ih =>
      have hw := ((v.internWord w).1.grows_internWords ws).word?
        (v.word?_internWord w)
      simp only [internWords, List.map_cons, hw, ih]

end LatticeParsing.Vocabulary
