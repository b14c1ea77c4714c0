/-
What calls make of a vocabulary.

A vocabulary is asked for the symbol of a grammar symbol or of an input word,
or whether it knows a spelling or a symbol. Only the first two kinds of calls
change it, and all they do is to put a new spelling behind those of its kind
(`fst_internWord`, `fst_intern`). So no two symbols of one kind are spelled
alike (`Vocabulary.Distinct`), and then the answer to a call says just what
the spelling of the answer says (`internWord_eq_iff`, `intern_eq_iff`,
`find?_eq_some_iff`). As spellings stay, so do answers
(`VocabularyCall.stays_of_mem_log`).
-/
import LatticeParsing.Proofs.Symbol.Spellings
import Mathlib.Data.List.Induction
import Mathlib.Data.List.Nodup

namespace LatticeParsing

-- ================================================================ calls

/-- A call on a vocabulary: the first two intern a grammar symbol or an input
word, the others look up a spelling or a symbol. -/
inductive VocabularyCall where
  | intern (w : String)
  | internWord (w : String)
  | find (w : String)
  | spell (s : Symbol)
  deriving DecidableEq, Repr

/-- What a call answers. -/
inductive VocabularyAnswer where
  | symbol (s : Symbol)
  | found (s : Option Symbol)
  | spelled (w : Option String)
  deriving DecidableEq, Repr

namespace VocabularyCall

/-- The vocabulary after a call, and the answer. -/
def run (v : Vocabulary) : VocabularyCall → Vocabulary × VocabularyAnswer
  | intern w => ((v.intern w).1, .symbol (v.intern w).2)
  | internWord w => ((v.internWord w).1, .symbol (v.internWord w).2)
  | find w => (v, .found (v.find? w))
  | spell s => (v, .spelled (v.word? s))

/-- Calls with their answers, in order. -/
def log (v : Vocabulary) :
    List VocabularyCall → List (VocabularyCall × VocabularyAnswer)
  | [] => []
  | call :: calls => (call, (call.run v).2) :: log (call.run v).1 calls

/-- The spelling of the terminal that a call interns, if it does. -/
def terminal? : VocabularyCall → Option String
  | intern w => if Label.isNonterminal w then none else some w
  | internWord w => some w
  | _ => none

/-- The spelling of the nonterminal that a call interns, if it does. -/
def nonterminal? : VocabularyCall → Option String
  | intern w => if Label.isNonterminal w then some (Label.base w) else none
  | _ => none

end VocabularyCall

/-- The vocabulary after calls on a fresh one. -/
def Vocabulary.ofCalls (calls : List VocabularyCall) : Vocabulary :=
  calls.foldl (fun v call => (call.run v).1) {}

namespace Vocabulary

variable {v v' : Vocabulary} {w u : String} {s t : Symbol}
  {words : Array String}

-- ============================================================ enlisting

/-- Spellings with one more, which is put behind them unless it is there. -/
def enlist (words : Array String) (w : String) : Array String :=
  if w ∈ words then words else words.push w

theorem nodup_enlist (h : words.toList.Nodup) (w : String) :
    (enlist words w).toList.Nodup := by
  unfold enlist
  split
  case isTrue => exact h
  case isFalse hw =>
    rw [Array.toList_push, List.nodup_append]
    refine ⟨h, List.nodup_singleton w, ?_⟩
    intro u hu x hx heq
    rw [List.mem_singleton] at hx
    subst hx heq
    exact hw (Array.mem_toList_iff.1 hu)

/-- Spellings that are enlisted one after the other stand in the order in
which they first came. -/
theorem toList_enlist {ws : List String} (h : words.toList = ws.eraseDups)
    (w : String) : (enlist words w).toList = (ws ++ [w]).eraseDups := by
  have hmem : w ∈ words ↔ w ∈ ws := by
    rw [← Array.mem_toList_iff, h, List.mem_eraseDups]
  rw [List.eraseDups_append, ← h]
  unfold enlist
  by_cases hw : w ∈ ws
  · simp [hmem, hw, List.removeAll]
  · simp [hmem, hw, List.removeAll, List.eraseDups_cons]

theorem terminal?_eq_none : v.terminal? w = none ↔ w ∉ v.terminals := by
  unfold terminal?
  rw [← Array.idxOf?_eq_none_iff]
  cases v.terminals.idxOf? w <;> simp

theorem nonterminal?_eq_none :
    v.nonterminal? w = none ↔ w ∉ v.nonterminals := by
  unfold nonterminal?
  rw [← Array.idxOf?_eq_none_iff]
  cases v.nonterminals.idxOf? w <;> simp

/-- Interning a word enlists it as a terminal. -/
theorem fst_internWord (v : Vocabulary) (w : String) :
    (v.internWord w).1 = { v with terminals := enlist v.terminals w } := by
  unfold enlist
  cases h : v.terminal? w with
  | none => rw [internWord_new h, if_neg (terminal?_eq_none.1 h)]
  | some s =>
      have hw : w ∈ v.terminals := by
        by_contra hw
        rw [terminal?_eq_none.2 hw] at h
        cases h
      rw [internWord_old h, if_pos hw]

/-- Interning a nonterminal enlists its spelling without the index. -/
theorem fst_intern (hw : Label.isNonterminal w = true) :
    (v.intern w).1
      = { v with nonterminals := enlist v.nonterminals (Label.base w) } := by
  unfold enlist
  cases h : v.nonterminal? (Label.base w) with
  | none => rw [intern_new hw h, if_neg (nonterminal?_eq_none.1 h)]
  | some s =>
      have hmem : Label.base w ∈ v.nonterminals := by
        by_contra hmem
        rw [nonterminal?_eq_none.2 hmem] at h
        cases h
      rw [intern_old hw h, if_pos hmem]

-- ================================================== distinct spellings

/-- No two symbols of one kind are spelled alike. -/
structure Distinct (v : Vocabulary) : Prop where
  terminals : v.terminals.toList.Nodup
  nonterminals : v.nonterminals.toList.Nodup

theorem distinct_empty : ({} : Vocabulary).Distinct :=
  ⟨List.nodup_nil, List.nodup_nil⟩

theorem Distinct.internWord (h : v.Distinct) (w : String) :
    (v.internWord w).1.Distinct := by
  rw [fst_internWord]
  exact ⟨nodup_enlist h.terminals w, h.nonterminals⟩

theorem Distinct.intern (h : v.Distinct) (w : String) :
    (v.intern w).1.Distinct := by
  cases hw : Label.isNonterminal w with
  | true =>
      rw [fst_intern hw]
      exact ⟨h.terminals, nodup_enlist h.nonterminals _⟩
  | false =>
      rw [intern_word hw]
      exact h.internWord w

theorem Grows.distinct (h : v.Grows v') (hv : v.Distinct) : v'.Distinct := by
  induction h with
  | refl => exact hv
  | intern w _ ih => exact ih.intern w
  | internWord w _ ih => exact ih.internWord w

/-- Where no spelling occurs twice, a spelling is found where it stands. -/
theorem idxOf?_eq_some (h : words.toList.Nodup) {n : Nat} :
    words.idxOf? w = some n ↔ words[n]? = some w := by
  refine ⟨getElem?_of_idxOf?, fun hn => ?_⟩
  cases hidx : words.idxOf? w with
  | none =>
      rw [Array.idxOf?_eq_none_iff] at hidx
      exact absurd (Array.mem_of_getElem? hn) hidx
  | some m =>
      have hm := getElem?_of_idxOf? hidx
      rw [← Array.getElem?_toList] at hm hn
      rw [(List.getElem?_inj (List.getElem?_eq_some_iff.1 hm).1 h).1
        (hm.trans hn.symm)]

/-- A symbol that has a spelling is a terminal or a nonterminal. -/
theorem word?_cases (h : v.word? s = some w) :
    (0 < s ∧ ∃ n : Nat, s = (n : Int) + 1 ∧ v.terminals[n]? = some w)
      ∨ s < 0 ∧ ∃ n : Nat, s = -((n : Int) + 1)
          ∧ v.nonterminals[n]? = some w := by
  unfold word? at h
  split at h
  case h_1 => cases h
  case h_2 n => exact Or.inl ⟨terminal_pos n, n, rfl, h⟩
  case h_3 n => exact Or.inr ⟨Int.negSucc_lt_zero n, n, Int.negSucc_eq n, h⟩

theorem terminal?_eq_some_iff (h : v.Distinct) :
    v.terminal? w = some s ↔ 0 < s ∧ v.word? s = some w := by
  rw [terminal?_eq_some]
  constructor
  · rintro ⟨n, hn, rfl⟩
    rw [word?_terminal]
    exact ⟨terminal_pos n, (idxOf?_eq_some h.terminals).1 hn⟩
  · rintro ⟨hs, hw⟩
    rcases word?_cases hw with ⟨-, n, rfl, hn⟩ | ⟨hneg, -⟩
    · exact ⟨n, (idxOf?_eq_some h.terminals).2 hn, rfl⟩
    · exact absurd hneg (Int.lt_asymm hs)

theorem nonterminal?_eq_some_iff (h : v.Distinct) :
    v.nonterminal? w = some s ↔ s < 0 ∧ v.word? s = some w := by
  rw [nonterminal?_eq_some]
  constructor
  · rintro ⟨n, hn, rfl⟩
    rw [word?_nonterminal]
    exact ⟨nonterminal_neg n, (idxOf?_eq_some h.nonterminals).1 hn⟩
  · rintro ⟨hs, hw⟩
    rcases word?_cases hw with ⟨hpos, -⟩ | ⟨-, n, rfl, hn⟩
    · exact absurd hpos (Int.lt_asymm hs)
    · exact ⟨n, (idxOf?_eq_some h.nonterminals).2 hn, rfl⟩

/-- A symbol that has a spelling is a terminal unless it is negative. -/
theorem pos_iff_of_word? (h : v.word? s = some w) : 0 < s ↔ ¬ s < 0 := by
  rcases word?_cases h with ⟨hpos, -⟩ | ⟨hneg, -⟩
  · exact iff_of_true hpos (Int.lt_asymm hpos)
  · exact iff_of_false (Int.lt_asymm hneg) (not_not_intro hneg)

/-- Two symbols of one kind that are spelled alike are the same. -/
theorem Distinct.word?_inj (h : v.Distinct) (hs : v.word? s = some w)
    (ht : v.word? t = some w) (hsign : s < 0 ↔ t < 0) : s = t := by
  by_cases hneg : s < 0
  · have h' := (nonterminal?_eq_some_iff h).2 ⟨hneg, hs⟩
    rw [(nonterminal?_eq_some_iff h).2 ⟨hsign.1 hneg, ht⟩] at h'
    injection h' with h'
    exact h'.symm
  · have hpos := (pos_iff_of_word? hs).2 hneg
    have hpos' := (pos_iff_of_word? ht).2 (mt hsign.2 hneg)
    have h' := (terminal?_eq_some_iff h).2 ⟨hpos, hs⟩
    rw [(terminal?_eq_some_iff h).2 ⟨hpos', ht⟩] at h'
    injection h' with h'
    exact h'.symm

-- ============================================================== answers

/-- A word is known by a symbol just if that is a terminal with the spelling
of the word. -/
theorem internWord_eq_iff (h : v.Distinct) :
    v.internWord w = (v, s) ↔ 0 < s ∧ v.word? s = some w := by
  constructor
  · intro heq
    have hpos := v.internWord_pos w
    have hword := v.word?_internWord w
    rw [heq] at hpos hword
    exact ⟨hpos, hword⟩
  · exact fun hs => internWord_old ((terminal?_eq_some_iff h).2 hs)

/-- A grammar symbol is known by a symbol just if that is of its kind and has
its spelling without the index. -/
theorem intern_eq_iff (h : v.Distinct) :
    v.intern w = (v, s)
      ↔ (s < 0 ↔ Label.isNonterminal w = true)
        ∧ v.word? s = some (Label.base w) := by
  constructor
  · intro heq
    have hneg := v.intern_neg_iff w
    have hword := v.word?_intern w
    rw [heq] at hneg hword
    exact ⟨hneg, hword⟩
  · rintro ⟨hsign, hword⟩
    cases hw : Label.isNonterminal w with
    | true =>
        rw [hw] at hsign
        exact intern_old hw
          ((nonterminal?_eq_some_iff h).2 ⟨hsign.2 rfl, hword⟩)
    | false =>
        rw [hw] at hsign
        have hpos := (pos_iff_of_word? hword).2
          fun hneg => Bool.false_ne_true (hsign.1 hneg)
        rw [Label.base_of_word hw] at hword
        rw [intern_word hw, internWord_eq_iff h]
        exact ⟨hpos, hword⟩

/-- A grammar symbol that has been interned is given out again, and nothing
changes. -/
theorem Distinct.intern_again (h : v.Distinct)
    (hgrows : (v.intern w).1.Grows v') :
    v'.intern w = (v', (v.intern w).2) := by
  have hv' := hgrows.distinct (h.intern w)
  rw [intern_eq_iff hv']
  exact ⟨v.intern_neg_iff w, hgrows.word? (v.word?_intern w)⟩

/-- Two grammar symbols are one just if their spellings agree but for an
index. -/
theorem Distinct.intern_inj (h : v.Distinct) (hs : v.intern u = (v, s))
    (ht : v.intern w = (v, t)) : s = t ↔ Label.base u = Label.base w := by
  obtain ⟨hsign, hspelled⟩ := (intern_eq_iff h).1 hs
  obtain ⟨hsign', hspelled'⟩ := (intern_eq_iff h).1 ht
  constructor
  · rintro rfl
    rw [hspelled] at hspelled'
    injection hspelled'
  · intro hbase
    refine h.word?_inj hspelled (hbase ▸ hspelled') ?_
    rw [hsign, hsign', ← Label.isNonterminal_base u, hbase,
      Label.isNonterminal_base]

/-- Two words are one symbol just if they are equal. -/
theorem Distinct.internWord_inj (h : v.Distinct)
    (hs : v.internWord u = (v, s)) (ht : v.internWord w = (v, t)) :
    s = t ↔ u = w := by
  obtain ⟨hpos, hspelled⟩ := (internWord_eq_iff h).1 hs
  obtain ⟨hpos', hspelled'⟩ := (internWord_eq_iff h).1 ht
  constructor
  · rintro rfl
    rw [hspelled] at hspelled'
    injection hspelled'
  · rintro rfl
    exact h.word?_inj hspelled hspelled'
      (iff_of_false (Int.lt_asymm hpos) (Int.lt_asymm hpos'))

/-- A grammar symbol and a word are one symbol just if they are equal and no
nonterminal. -/
theorem Distinct.intern_eq_internWord (h : v.Distinct)
    (hs : v.intern u = (v, s)) (ht : v.internWord w = (v, t)) :
    s = t ↔ u = w ∧ Label.isNonterminal u = false := by
  constructor
  · rintro rfl
    obtain ⟨hpos, hspelled⟩ := (internWord_eq_iff h).1 ht
    obtain ⟨hsign, hspelled'⟩ := (intern_eq_iff h).1 hs
    have hu : Label.isNonterminal u = false :=
      Bool.eq_false_iff.2 (mt hsign.2 (Int.lt_asymm hpos))
    rw [hspelled, Label.base_of_word hu] at hspelled'
    injection hspelled' with heq
    exact ⟨heq.symm, hu⟩
  · rintro ⟨rfl, hu⟩
    rw [intern_word hu] at hs
    exact (h.internWord_inj hs ht).2 rfl

/-- A spelling is found under the symbol of its kind that has it. -/
theorem find?_eq_some_iff (h : v.Distinct) :
    v.find? w = some s
      ↔ (s < 0 ↔ Label.isNonterminal w = true) ∧ v.word? s = some w := by
  unfold find?
  cases hw : Label.isNonterminal w with
  | true => simp [nonterminal?_eq_some_iff h]
  | false =>
      simp only [Bool.false_eq_true, if_false, iff_false,
        terminal?_eq_some_iff h]
      exact and_congr_left pos_iff_of_word?

end Vocabulary

-- ================================================================ a run

namespace VocabularyCall

open Vocabulary

variable {v v' : Vocabulary} {w : String} {s : Symbol}
  {call : VocabularyCall} {answer : VocabularyAnswer}

theorem grows_run (v : Vocabulary) (call : VocabularyCall) :
    v.Grows (call.run v).1 := by
  cases call with
  | intern w => exact .intern w .refl
  | internWord w => exact .internWord w .refl
  | find w => exact .refl
  | spell s => exact .refl

theorem grows_foldl (v : Vocabulary) (calls : List VocabularyCall) :
    v.Grows (calls.foldl (fun v call => (call.run v).1) v) := by
  induction calls generalizing v with
  | nil => exact .refl
  | cons call calls ih => exact (grows_run v call).trans (ih _)

/-- A fresh vocabulary grows with the calls on it. -/
theorem distinct_ofCalls (calls : List VocabularyCall) :
    (ofCalls calls).Distinct :=
  (grows_foldl {} calls).distinct distinct_empty

/-- Every call is answered. -/
theorem map_fst_log (v : Vocabulary) (calls : List VocabularyCall) :
    (log v calls).map Prod.fst = calls := by
  induction calls generalizing v with
  | nil => rfl
  | cons call calls ih => simp [log, ih]

/-- What an answer says of a vocabulary: a symbol that has been given out is
given out again, without a change, and what has been found is found. -/
def Stays (v : Vocabulary) : VocabularyCall → VocabularyAnswer → Prop
  | intern w, .symbol s => v.intern w = (v, s)
  | internWord w, .symbol s => v.internWord w = (v, s)
  | find w, .found (some s) => v.find? w = some s
  | spell s, .spelled (some w) => v.word? s = some w
  | _, _ => True

/-- An answer stays right whatever is interned later. -/
theorem stays_run (hv : v.Distinct) (hgrows : (call.run v).1.Grows v') :
    Stays v' call (call.run v).2 := by
  have hv' := (((grows_run v call).trans hgrows)).distinct hv
  cases call with
  | intern w => exact hv.intern_again hgrows
  | internWord w =>
      exact (internWord_eq_iff hv').2
        ⟨v.internWord_pos w, hgrows.word? (v.word?_internWord w)⟩
  | find w =>
      cases h : v.find? w with
      | none => simp [run, h, Stays]
      | some s =>
          obtain ⟨hsign, hword⟩ := (find?_eq_some_iff hv).1 h
          simp only [run, h, Stays]
          exact (find?_eq_some_iff hv').2 ⟨hsign, hgrows.word? hword⟩
  | spell s =>
      cases h : v.word? s with
      | none => simp [run, h, Stays]
      | some w =>
          simp only [run, h, Stays]
          exact hgrows.word? h

/-- At the end of a run all its answers are right. -/
theorem stays_of_mem_log {calls : List VocabularyCall} (hv : v.Distinct)
    (h : (call, answer) ∈ log v calls) :
    Stays (calls.foldl (fun v call => (call.run v).1) v) call answer := by
  induction calls generalizing v with
  | nil => cases h
  | cons first calls ih =>
      rcases List.mem_cons.1 h with heq | hrest
      · cases heq
        exact stays_run hv (grows_foldl _ calls)
      · exact ih ((grows_run v first).distinct hv) hrest

-- ================================================================ order

theorem terminals_run (v : Vocabulary) (call : VocabularyCall) :
    (call.run v).1.terminals
      = call.terminal?.elim v.terminals (enlist v.terminals) := by
  cases call with
  | intern w =>
      cases hw : Label.isNonterminal w with
      | true => simp [run, terminal?, hw, fst_intern hw]
      | false => simp [run, terminal?, hw, intern_word hw, fst_internWord]
  | internWord w => simp [run, terminal?, fst_internWord]
  | find w => rfl
  | spell s => rfl

theorem nonterminals_run (v : Vocabulary) (call : VocabularyCall) :
    (call.run v).1.nonterminals
      = call.nonterminal?.elim v.nonterminals (enlist v.nonterminals) := by
  cases call with
  | intern w =>
      cases hw : Label.isNonterminal w with
      | true => simp [run, nonterminal?, hw, fst_intern hw]
      | false => simp [run, nonterminal?, hw, intern_word hw, fst_internWord]
  | internWord w => simp [run, nonterminal?, fst_internWord]
  | find w => rfl
  | spell s => rfl

/-- What each call enlists, if anything, comes to stand in the order in which
it first came. -/
theorem toList_foldl_enlist {table : Vocabulary → Array String}
    {enlisted : VocabularyCall → Option String}
    (hrun : ∀ v call, table (run v call).1
      = (enlisted call).elim (table v) (enlist (table v)))
    (hempty : table {} = #[]) (calls : List VocabularyCall) :
    (table (ofCalls calls)).toList = (calls.filterMap enlisted).eraseDups := by
  induction calls using List.reverseRecOn with
  | nil => simp [ofCalls, hempty]
  | append_singleton calls call ih =>
      have hlast : ofCalls (calls ++ [call])
          = (call.run (ofCalls calls)).1 := by
        simp [ofCalls]
      rw [hlast, hrun, List.filterMap_append]
      cases henlisted : enlisted call with
      | none => simp [henlisted, ih]
      | some w =>
          rw [List.filterMap_cons_some henlisted, List.filterMap_nil]
          exact toList_enlist ih w

theorem ofCalls_append (calls more : List VocabularyCall) :
    ofCalls (calls ++ more)
      = more.foldl (fun v call => (call.run v).1) (ofCalls calls) := by
  simp [ofCalls]

end VocabularyCall

end LatticeParsing
