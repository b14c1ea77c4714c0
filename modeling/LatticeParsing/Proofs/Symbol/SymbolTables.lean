/-
Maps beside arrays.

A symbol table does what a vocabulary does, but it looks spellings up in two
maps (`SymbolTable.Follows`). The invariant: a map leads from a spelling to
the place at which a search among the spellings of its kind finds it, and
each place is led to from one map alone, so that the maps together are as
large as the arrays. There are three ways to enter a spelling, one for each
kind of entry: `pushTerminal`, `pushNonterminal` and `pushBracketed`. In each
the spelling is new to its array, and the other map is left as it is, since it
holds spellings of the other kind only.

What holds of a run of calls follows by induction on them (`follows_ofCalls`,
`log_eq`), and the main statement says what it comes to: maps, arrays and
answers agree, and tell symbols by their spellings.
-/
import LatticeParsing.Symbol.SymbolTable
import LatticeParsing.Proofs.Symbol.Calls

namespace LatticeParsing

namespace Vocabulary

variable {v : Vocabulary} {w : String} {s : Symbol}

theorem terminal?_push (v : Vocabulary) (w u : String) :
    ({ v with terminals := v.terminals.push w } : Vocabulary).terminal? u
      = (v.terminal? u).or
          (if w = u then some ((v.terminals.size : Int) + 1) else none) := by
  unfold terminal?
  rw [idxOf?_push]
  cases v.terminals.idxOf? u <;> by_cases hu : w = u <;> simp [hu]

theorem terminal?_push_of_ne {u : String} (hne : w ≠ u) :
    ({ v with terminals := v.terminals.push w } : Vocabulary).terminal? u
      = v.terminal? u := by
  rw [terminal?_push, if_neg hne, Option.or_none]

theorem nonterminal?_push (v : Vocabulary) (w u : String) :
    ({ v with nonterminals := v.nonterminals.push w } : Vocabulary).nonterminal?
        u
      = (v.nonterminal? u).or
          (if w = u then some (-((v.nonterminals.size : Int) + 1))
            else none) := by
  unfold nonterminal?
  rw [idxOf?_push]
  cases v.nonterminals.idxOf? u <;> by_cases hu : w = u <;> simp [hu]

/-- Grammar symbols are interned without their index. -/
theorem intern_base (v : Vocabulary) (w : String) :
    v.intern (Label.base w) = v.intern w := by
  cases hw : Label.isNonterminal w with
  | false => rw [Label.base_of_word hw]
  | true =>
      unfold intern
      simp only [Label.isNonterminal_base, Label.base_base, hw, if_true]

/-- What is found without its index is given out. -/
theorem intern_of_find? (h : v.find? (Label.base w) = some s) :
    v.intern w = (v, s) := by
  unfold find? at h
  rw [Label.isNonterminal_base] at h
  cases hw : Label.isNonterminal w with
  | true =>
      rw [if_pos hw] at h
      exact intern_old hw h
  | false =>
      rw [hw, Label.base_of_word hw] at h
      rw [intern_word hw]
      exact internWord_old h

end Vocabulary

namespace SymbolTable

open Vocabulary

/-- Whether a table keeps a vocabulary: it has its spellings, and its maps
find what a search among them finds. Only the terminals that are spelled like
nonterminals have a map of their own. -/
structure Follows (t : SymbolTable) (v : Vocabulary) : Prop where
  terminals_eq : t.terminals = v.terminals
  nonterminals_eq : t.nonterminals = v.nonterminals
  ids_eq : ∀ w, t.ids[w]? = v.find? w
  bracketed_eq : ∀ w, t.bracketedWords[w]?
    = if Label.isNonterminal w then v.terminal? w else none
  size_eq : t.size = v.size

variable {t : SymbolTable} {v : Vocabulary} {w : String} {s : Symbol}

namespace Follows

theorem empty : Follows {} {} where
  terminals_eq := rfl
  nonterminals_eq := rfl
  ids_eq := fun w => by simp [Vocabulary.find?, terminal?, nonterminal?]
  bracketed_eq := fun w => by simp [terminal?]
  size_eq := rfl

/-- A symbol is spelled alike in both. -/
theorem word?_eq (h : t.Follows v) (s : Symbol) : t.word? s = v.word? s := by
  unfold SymbolTable.word? Vocabulary.word?
  rw [h.terminals_eq, h.nonterminals_eq]
  cases s with
  | ofNat n =>
      have hsign : Symbol.isNonterminal (Int.ofNat n) = false :=
        Symbol.isNonterminal_eq_false.2 (Int.natCast_nonneg n)
      rw [hsign]
      cases n <;> rfl
  | negSucc n =>
      have hsign : Symbol.isNonterminal (Int.negSucc n) = true :=
        Symbol.isNonterminal_eq_true.2 (Int.negSucc_lt_zero n)
      rw [hsign]
      rfl

-- ============================================================== entries

/-- A new entry makes a map larger by one. -/
theorem size_insert_new {m : Std.HashMap String Symbol} (h : m[w]? = none)
    (s : Symbol) : (m.insert w s).size = m.size + 1 := by
  have hmem : w ∉ m := by
    rw [Std.HashMap.mem_iff_isSome_getElem?, h]
    exact Bool.false_ne_true
  rw [Std.HashMap.size_insert, if_neg hmem]

/-- A new terminal that is spelled like one. -/
theorem pushTerminal (h : t.Follows v) (hw : Label.isNonterminal w = false)
    (hnew : v.terminal? w = none) :
    Follows
      { t with
        ids := t.ids.insert w (t.terminals.push w).size
        terminals := t.terminals.push w }
      { v with terminals := v.terminals.push w } where
  terminals_eq := congrArg (Array.push · w) h.terminals_eq
  nonterminals_eq := h.nonterminals_eq
  ids_eq := fun u => by
    simp only [Std.HashMap.getElem?_insert, h.ids_eq, Vocabulary.find?,
      terminal?_push]
    by_cases hu : w = u
    · subst hu
      simp [hw, hnew, h.terminals_eq]
    · simp [hu, nonterminal?]
  bracketed_eq := fun u => by
    rw [h.bracketed_eq]
    split
    case isFalse => rfl
    case isTrue hu =>
      have hne : w ≠ u := fun heq => by simp [heq, hu] at hw
      exact (terminal?_push_of_ne hne).symm
  size_eq := by
    have hmiss : t.ids[w]? = none := by
      rw [h.ids_eq, Vocabulary.find?, hw]
      exact hnew
    have hsize := h.size_eq
    unfold SymbolTable.size Vocabulary.size at hsize ⊢
    simp only [size_insert_new hmiss, Array.size_push]
    omega

/-- A new nonterminal. -/
theorem pushNonterminal (h : t.Follows v) (hw : Label.isNonterminal w = true)
    (hnew : v.nonterminal? w = none) :
    Follows
      { t with
        ids := t.ids.insert w (-((t.nonterminals.push w).size : Int))
        nonterminals := t.nonterminals.push w }
      { v with nonterminals := v.nonterminals.push w } where
  terminals_eq := h.terminals_eq
  nonterminals_eq := congrArg (Array.push · w) h.nonterminals_eq
  ids_eq := fun u => by
    simp only [Std.HashMap.getElem?_insert, h.ids_eq, Vocabulary.find?,
      nonterminal?_push]
    by_cases hu : w = u
    · subst hu
      simp [hw, hnew, h.nonterminals_eq]
    · simp [hu, terminal?]
  bracketed_eq := h.bracketed_eq
  size_eq := by
    have hmiss : t.ids[w]? = none := by
      rw [h.ids_eq, Vocabulary.find?, hw]
      exact hnew
    have hsize := h.size_eq
    unfold SymbolTable.size Vocabulary.size at hsize ⊢
    simp only [size_insert_new hmiss, Array.size_push]
    omega

/-- A new terminal that is spelled like a nonterminal. -/
theorem pushBracketed (h : t.Follows v) (hw : Label.isNonterminal w = true)
    (hnew : v.terminal? w = none) :
    Follows
      { t with
        bracketedWords :=
          t.bracketedWords.insert w (t.terminals.push w).size
        terminals := t.terminals.push w }
      { v with terminals := v.terminals.push w } where
  terminals_eq := congrArg (Array.push · w) h.terminals_eq
  nonterminals_eq := h.nonterminals_eq
  ids_eq := fun u => by
    rw [h.ids_eq]
    unfold Vocabulary.find?
    split
    case isTrue => rfl
    case isFalse hu =>
      have hne : w ≠ u := fun heq => hu (heq ▸ hw)
      exact (terminal?_push_of_ne hne).symm
  bracketed_eq := fun u => by
    rw [Std.HashMap.getElem?_insert, h.bracketed_eq, terminal?_push]
    by_cases hu : w = u
    · subst hu
      simp [hw, hnew, h.terminals_eq]
    · simp [hu]
  size_eq := by
    have hmiss : t.bracketedWords[w]? = none := by
      rw [h.bracketed_eq, if_pos hw, hnew]
    have hsize := h.size_eq
    unfold SymbolTable.size Vocabulary.size at hsize ⊢
    simp only [size_insert_new hmiss, Array.size_push]
    omega

-- ================================================================ calls

/-- A new grammar symbol is entered under the number that interning it
gives. -/
theorem enter (h : t.Follows v) (hbase : Label.base w = w)
    (hnew : v.find? w = none) :
    (t.enter w).2 = (v.intern w).2
      ∧ (t.enter w).1.Follows (v.intern w).1 := by
  have hmiss := (h.ids_eq w).trans hnew
  unfold SymbolTable.enter
  simp only [hmiss]
  unfold Vocabulary.find? at hnew
  cases hw : Label.isNonterminal w with
  | true =>
      rw [if_pos hw] at hnew
      rw [if_pos rfl, intern_new hw (by rwa [hbase]), hbase]
      refine ⟨?_, h.pushNonterminal hw hnew⟩
      simp [h.nonterminals_eq]
  | false =>
      rw [hw] at hnew
      rw [if_neg Bool.false_ne_true, intern_word hw, internWord_new hnew]
      refine ⟨?_, h.pushTerminal hw hnew⟩
      simp [h.terminals_eq]

/-- Both give a grammar symbol the same number. -/
theorem intern (h : t.Follows v) (w : String) :
    (t.intern w).2 = (v.intern w).2
      ∧ (t.intern w).1.Follows (v.intern w).1 := by
  have hbase : (if Label.isNonterminal w then Label.base w else w)
      = Label.base w := by
    split
    case isTrue => rfl
    case isFalse hw => exact (Label.base_of_word (Bool.eq_false_iff.2 hw)).symm
  unfold SymbolTable.intern SymbolTable.find?
  simp only [hbase, h.ids_eq]
  cases hfind : v.find? (Label.base w) with
  | some s =>
      rw [intern_of_find? hfind]
      exact ⟨rfl, h⟩
  | none =>
      rw [← intern_base]
      exact h.enter (Label.base_base w) hfind

/-- Both give a word the same number. -/
theorem internWord (h : t.Follows v) (w : String) :
    (t.internWord w).2 = (v.internWord w).2
      ∧ (t.internWord w).1.Follows (v.internWord w).1 := by
  unfold SymbolTable.internWord
  cases hw : Label.isNonterminal w with
  | false =>
      rw [← intern_word hw]
      exact h.intern w
  | true =>
      have hmap := h.bracketed_eq w
      rw [if_pos hw] at hmap
      simp only [if_true, hmap]
      cases hfind : v.terminal? w with
      | some s =>
          rw [internWord_old hfind]
          exact ⟨rfl, h⟩
      | none =>
          rw [internWord_new hfind]
          refine ⟨?_, h.pushBracketed hw hfind⟩
          simp [h.terminals_eq]

end Follows

/-- The table after a call, and the answer. -/
def call (t : SymbolTable) : VocabularyCall → SymbolTable × VocabularyAnswer
  | .intern w => ((t.intern w).1, .symbol (t.intern w).2)
  | .internWord w => ((t.internWord w).1, .symbol (t.internWord w).2)
  | .find w => (t, .found (t.find? w))
  | .spell s => (t, .spelled (t.word? s))

/-- Calls with their answers, in order. -/
def log (t : SymbolTable) :
    List VocabularyCall → List (VocabularyCall × VocabularyAnswer)
  | [] => []
  | c :: calls => (c, (t.call c).2) :: log (t.call c).1 calls

/-- The table after calls on a fresh one. -/
def ofCalls (calls : List VocabularyCall) : SymbolTable :=
  calls.foldl (fun t c => (t.call c).1) {}

/-- A table answers as its vocabulary does. -/
theorem Follows.call (h : t.Follows v) (c : VocabularyCall) :
    (t.call c).2 = (c.run v).2 ∧ (t.call c).1.Follows (c.run v).1 := by
  cases c with
  | intern w =>
      obtain ⟨hanswer, hfollows⟩ := h.intern w
      exact ⟨congrArg _ hanswer, hfollows⟩
  | internWord w =>
      obtain ⟨hanswer, hfollows⟩ := h.internWord w
      exact ⟨congrArg _ hanswer, hfollows⟩
  | find w => exact ⟨congrArg _ (h.ids_eq w), h⟩
  | spell s => exact ⟨congrArg _ (h.word?_eq s), h⟩

theorem follows_foldl (h : t.Follows v) (calls : List VocabularyCall) :
    Follows (calls.foldl (fun t c => (t.call c).1) t)
      (calls.foldl (fun v c => (c.run v).1) v) := by
  induction calls generalizing t v with
  | nil => exact h
  | cons c calls ih => exact ih (h.call c).2

/-- The same calls on fresh ones. -/
theorem follows_ofCalls (calls : List VocabularyCall) :
    (ofCalls calls).Follows (.ofCalls calls) :=
  follows_foldl .empty calls

theorem log_eq (h : t.Follows v) (calls : List VocabularyCall) :
    t.log calls = VocabularyCall.log v calls := by
  induction calls generalizing t v with
  | nil => rfl
  | cons c calls ih =>
      obtain ⟨hanswer, hfollows⟩ := h.call c
      rw [log, VocabularyCall.log, hanswer, ih hfollows]

-- ============================================================== answers

/-- A symbol that its vocabulary would give out again, a table gives out
again, and nothing changes. -/
theorem Follows.intern_again (h : t.Follows v) (hv : v.Distinct)
    (hs : v.intern w = (v, s)) : t.intern w = (t, s) := by
  have hfind : t.find? (Label.base w) = some s := by
    unfold SymbolTable.find?
    rw [h.ids_eq, find?_eq_some_iff hv, Label.isNonterminal_base]
    exact (intern_eq_iff hv).1 hs
  unfold SymbolTable.intern
  cases hw : Label.isNonterminal w with
  | true => simp [hfind]
  | false =>
      rw [Label.base_of_word hw] at hfind
      simp [hfind]

/-- So it is with words. -/
theorem Follows.internWord_again (h : t.Follows v) (hv : v.Distinct)
    (hs : v.internWord w = (v, s)) : t.internWord w = (t, s) := by
  unfold SymbolTable.internWord
  cases hw : Label.isNonterminal w with
  | false =>
      rw [← intern_word hw] at hs
      exact h.intern_again hv hs
  | true =>
      have hterminal : v.terminal? w = some s :=
        (terminal?_eq_some_iff hv).2 ((internWord_eq_iff hv).1 hs)
      have hmap := h.bracketed_eq w
      rw [if_pos hw, hterminal] at hmap
      simp [hmap]

/-- What stands in the map of grammar symbols is of the kind of its spelling
and has it. -/
theorem Follows.getElem?_ids (h : t.Follows v) (hv : v.Distinct) :
    t.ids[w]? = some s
      ↔ (s < 0 ↔ Label.isNonterminal w = true) ∧ t.word? s = some w := by
  rw [h.ids_eq, h.word?_eq, find?_eq_some_iff hv]

/-- What stands in the map of bracketed words is a terminal all the same. -/
theorem Follows.getElem?_bracketedWords (h : t.Follows v) (hv : v.Distinct) :
    t.bracketedWords[w]? = some s
      ↔ Label.isNonterminal w = true ∧ 0 < s ∧ t.word? s = some w := by
  rw [h.bracketed_eq, Option.ite_none_right_eq_some, h.word?_eq,
    terminal?_eq_some_iff hv]

end SymbolTable

/-- A table tells symbols by their spellings and keeps them, whatever the
calls on it are. All that hold a table share it, so their calls are one
sequence.

The table answers each call as the vocabulary does that has its arrays and
searches them. The maps agree with the arrays: the one leads from a spelling
to the symbol of its kind that has it, the other from a spelling of a
nonterminal to the terminal that has it, and neither leads anywhere else.

The symbols in use are `1, 2, …` and `-1, -2, …`, spelled like what has been
interned as a terminal or as a nonterminal, each in the order in which it
first came, and the maps together count them. What has been given out for a
grammar symbol is negative just for a nonterminal, and is spelled without an
index; what has been given out for a word is positive and spelled like the
word. Both are given out again for the same, and then nothing is new. So two
grammar symbols have one number just if their spellings agree but for an
index, two words just if they are equal, and a grammar symbol and a word just
if they are equal and no nonterminal.

What has been found is found again and what has had a spelling keeps it, now
and after further calls, and to look something up changes nothing. Leaving out
the index happens once, leaves nonterminals nonterminals, and keeps all other
words. -/
theorem symbols_are_told_by_their_spellings (calls : List VocabularyCall) :
    let t := SymbolTable.ofCalls calls
    let v := Vocabulary.ofCalls calls
    let log := SymbolTable.log {} calls
    let terminals := (calls.filterMap VocabularyCall.terminal?).eraseDups
    let nonterminals := (calls.filterMap VocabularyCall.nonterminal?).eraseDups
    (t.terminals = v.terminals ∧ t.nonterminals = v.nonterminals
        ∧ (∀ w, t.find? w = v.find? w)
        ∧ log = VocabularyCall.log {} calls)
      ∧ (∀ w s, t.ids[w]? = some s
          ↔ (s < 0 ↔ Label.isNonterminal w = true) ∧ t.word? s = some w)
      ∧ (∀ w s, t.bracketedWords[w]? = some s
          ↔ Label.isNonterminal w = true ∧ 0 < s ∧ t.word? s = some w)
      ∧ (t.word? 0 = none
        ∧ (∀ n : Nat, t.word? (n + 1) = terminals[n]?
            ∧ t.word? (-(n + 1)) = nonterminals[n]?)
        ∧ t.size = nonterminals.length + terminals.length)
      ∧ (∀ w s, (.intern w, .symbol s) ∈ log →
          (s < 0 ↔ Label.isNonterminal w = true)
            ∧ t.word? s = some (Label.base w) ∧ t.intern w = (t, s))
      ∧ (∀ w s, (.internWord w, .symbol s) ∈ log →
          0 < s ∧ t.word? s = some w ∧ t.internWord w = (t, s))
      ∧ (∀ u w s s', (.intern u, .symbol s) ∈ log →
          (.intern w, .symbol s') ∈ log →
            (s = s' ↔ Label.base u = Label.base w))
      ∧ (∀ u w s s', (.internWord u, .symbol s) ∈ log →
          (.internWord w, .symbol s') ∈ log → (s = s' ↔ u = w))
      ∧ (∀ u w s s', (.intern u, .symbol s) ∈ log →
          (.internWord w, .symbol s') ∈ log →
            (s = s' ↔ u = w ∧ Label.isNonterminal u = false))
      ∧ (∀ w s, (.find w, .found (some s)) ∈ log → t.find? w = some s)
      ∧ (∀ s w, (.spell s, .spelled (some w)) ∈ log → t.word? s = some w)
      ∧ (∀ more s w, t.word? s = some w →
          (SymbolTable.ofCalls (calls ++ more)).word? s = some w)
      ∧ (∀ w, SymbolTable.ofCalls (calls ++ [.find w]) = t)
      ∧ (∀ s, SymbolTable.ofCalls (calls ++ [.spell s]) = t)
      ∧ log.map Prod.fst = calls
      ∧ ∀ w, Label.base (Label.base w) = Label.base w
          ∧ Label.isNonterminal (Label.base w) = Label.isNonterminal w
          ∧ (Label.isNonterminal w = false → Label.base w = w) := by
  intro t v log terminals nonterminals
  have hv : v.Distinct := VocabularyCall.distinct_ofCalls calls
  have hfollows : t.Follows v := SymbolTable.follows_ofCalls calls
  have hlog : log = VocabularyCall.log {} calls :=
    SymbolTable.log_eq .empty calls
  have hterminals : v.terminals.toList = terminals :=
    VocabularyCall.toList_foldl_enlist VocabularyCall.terminals_run rfl calls
  have hnonterminals : v.nonterminals.toList = nonterminals :=
    VocabularyCall.toList_foldl_enlist VocabularyCall.nonterminals_run rfl calls
  have hstays : ∀ {call answer}, (call, answer) ∈ log →
      VocabularyCall.Stays v call answer := fun h =>
    VocabularyCall.stays_of_mem_log Vocabulary.distinct_empty (hlog ▸ h)
  refine ⟨⟨hfollows.terminals_eq, hfollows.nonterminals_eq, hfollows.ids_eq,
      hlog⟩,
    fun w s => hfollows.getElem?_ids hv,
    fun w s => hfollows.getElem?_bracketedWords hv,
    ⟨rfl, fun n => ⟨?_, ?_⟩, ?_⟩, fun w s h => ?_, fun w s h => ?_,
    fun u w s s' hs hs' => hv.intern_inj (hstays hs) (hstays hs'),
    fun u w s s' hs hs' => hv.internWord_inj (hstays hs) (hstays hs'),
    fun u w s s' hs hs' => hv.intern_eq_internWord (hstays hs) (hstays hs'),
    fun w s h => (hfollows.ids_eq w).trans (hstays h),
    fun s w h => (hfollows.word?_eq s).trans (hstays h),
    fun more s w h => ?_, fun w => ?_, fun s => ?_, ?_,
    fun w => ⟨Label.base_base w, Label.isNonterminal_base w,
      Label.base_of_word⟩⟩
  · rw [hfollows.word?_eq, Vocabulary.word?_terminal, ← Array.getElem?_toList,
      hterminals]
  · rw [hfollows.word?_eq, Vocabulary.word?_nonterminal,
      ← Array.getElem?_toList, hnonterminals]
  · rw [hfollows.size_eq, ← hterminals, ← hnonterminals]
    simp [Vocabulary.size, Nat.add_comm]
  · obtain ⟨hsign, hspelled⟩ := (Vocabulary.intern_eq_iff hv).1 (hstays h)
    exact ⟨hsign, (hfollows.word?_eq s).trans hspelled,
      hfollows.intern_again hv (hstays h)⟩
  · obtain ⟨hpos, hspelled⟩ := (Vocabulary.internWord_eq_iff hv).1 (hstays h)
    exact ⟨hpos, (hfollows.word?_eq s).trans hspelled,
      hfollows.internWord_again hv (hstays h)⟩
  · rw [hfollows.word?_eq] at h
    rw [(SymbolTable.follows_ofCalls _).word?_eq,
      VocabularyCall.ofCalls_append]
    exact (VocabularyCall.grows_foldl v more).word? h
  · simp [t, SymbolTable.ofCalls, SymbolTable.call]
  · simp [t, SymbolTable.ofCalls, SymbolTable.call]
  · rw [hlog]
    exact VocabularyCall.map_fst_log {} calls

end LatticeParsing
