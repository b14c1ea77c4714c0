/-
What a grammar was built from.

A grammar is finished from a draft that has taken rules one by one, whether
singly or by the text. Its contents are those rules, in order, with what
else the draft fixes and the spellings of the time of finishing
(`GrammarContents`). They say what the grammar means: which rules it lists
(`listed`), which input symbols a symbol of a source side accepts
(`Accepts`), and over which spans its rules may apply (`Covers`).
-/
import LatticeParsing.Grammar.Basic
import LatticeParsing.Lattice.Distance
import LatticeParsing.Proofs.Grammar.Subtries
import Mathlib.Data.List.Forall2
import Mathlib.Data.List.Nodup

namespace LatticeParsing

variable {E : PatternEngine}

/-- A text that is accepted gives a draft its rules. -/
theorem GrammarDraft.addText_eq (d : GrammarDraft) (v : Vocabulary)
    (text : String) :
    d.addText v text = ((Rule.ofText v text).1,
      (Rule.ofText v text).2.map fun rs => rs.foldl add d) := by
  unfold addText load
  rcases Rule.ofText v text with ⟨v', e | rs⟩
  · rfl
  · rfl

/-- The rules of a grammar and what else it is built from. Where its labels
are patterns, the engine `E` reads them. -/
structure GrammarContents (E : PatternEngine) where
  number : Nat
  options : GrammarOptions
  rules : List Rule
  /-- The spellings at the time of finishing. -/
  spellings : Vocabulary

namespace GrammarContents

-- ============================================================= meaning

/-- The rules as they are listed. -/
def listed (g : GrammarContents E) : List ListedRule :=
  g.rules.mapIdx fun n r => ⟨⟨g.number, n⟩, r⟩

/-- Whether a symbol `s` of a source side accepts an input symbol `a` while
the spellings are those of `v`: where terminals are patterns, by the pattern
that the spelling of `s` gives, and otherwise only itself. -/
def Accepts (g : GrammarContents E) (v : Vocabulary) (s a : Symbol) : Prop :=
  if g.options.labelPatterns = true ∧ 0 ≤ a then
    0 ≤ s ∧ ∃ w u, g.spellings.word? s = some w ∧ v.word? a = some u
      ∧ (LabelPattern.ofLabel E w).accepts u = true
  else s = a

/-- Whether rules may apply from `i` to `j`: there is a path, and the
shortest one is within the limit. -/
def Covers (g : GrammarContents E) (l : Lattice) (i j : Nat) : Prop :=
  ∃ d, l.distance i j = some d
    ∧ ∀ limit, g.options.spanLimit = some limit → d ≤ limit

-- ============================================================ building

/-- The grammar of these contents. -/
def grammar (g : GrammarContents E) : Grammar :=
  (g.rules.foldl GrammarDraft.add ⟨g.number, g.options, .empty, 0⟩).finish
    g.spellings E

/-- The grammar as the charts see it while the spellings are those of
`v`. -/
def view (g : GrammarContents E) (v : Vocabulary) : GrammarView :=
  g.grammar.view v

variable {g : GrammarContents E} {v : Vocabulary}

theorem foldl_add (rs : List Rule) (d : GrammarDraft) :
    rs.foldl GrammarDraft.add d
      = ⟨d.number, d.options,
          (rs.mapIdx fun n r => ⟨⟨d.number, d.ruleCount + n⟩, r⟩).foldl
            Trie.insert d.trie,
          d.ruleCount + rs.length⟩ := by
  induction rs generalizing d with
  | nil => rfl
  | cons r rs ih =>
      rw [List.foldl_cons, ih, List.mapIdx_cons, List.foldl_cons]
      simp only [GrammarDraft.add, List.length_cons, Nat.add_zero,
        Nat.add_right_comm _ 1, Nat.add_assoc]

theorem root_grammar (g : GrammarContents E) :
    g.grammar.root = g.listed.foldl Trie.insert .empty := by
  unfold grammar listed
  rw [foldl_add]
  simp only [Nat.zero_add]
  rfl

@[simp]
theorem options_grammar (g : GrammarContents E) :
    g.grammar.options = g.options := by
  unfold grammar
  rw [foldl_add]
  rfl

theorem matching_grammar (g : GrammarContents E) :
    g.grammar.matching
      = if g.options.labelPatterns
        then .ofLabels E g.spellings g.grammar.root.allLabels.eraseDups
        else .exact := by
  unfold grammar
  rw [foldl_add]
  rfl

theorem ordered_root (g : GrammarContents E) : g.grammar.root.Ordered := by
  rw [root_grammar]
  exact Trie.insertAll_ordered Trie.ordered_empty _

/-- Behind a list of labels stand the rules that have it as their source
side. -/
theorem rulesAt_root (g : GrammarContents E) (path : List Symbol) :
    g.grammar.root.rulesAt path
      = g.listed.filter fun r => r.rule.source = path := by
  rw [root_grammar, Trie.rulesAt_insertAll Trie.ordered_empty]
  cases path with
  | nil => rfl
  | cons s path => rfl

theorem isSome_at?_root (g : GrammarContents E) {path : List Symbol} :
    (g.grammar.root.at? path).isSome
      ↔ path = [] ∨ ∃ r ∈ g.listed, path <+: r.rule.source := by
  rw [root_grammar, Trie.isSome_at?_insertAll Trie.ordered_empty]
  cases path with
  | nil => simp [Trie.at?]
  | cons s path => simp [Trie.at?, Trie.empty, Trie.edges]

theorem ruleCount_root (g : GrammarContents E) :
    g.grammar.root.ruleCount = g.listed.length := by
  rw [root_grammar, Trie.ruleCount_insertAll]
  exact Nat.zero_add _

theorem ruleCount_grammar (g : GrammarContents E) :
    g.grammar.ruleCount = g.rules.length := by
  unfold grammar
  rw [foldl_add]
  exact Nat.zero_add _

/-- No two listed rules have the same identity. -/
theorem nodup_ids (g : GrammarContents E) :
    (g.listed.map ListedRule.id).Nodup := by
  have hplaces : (g.listed.map ListedRule.id).map RuleId.place
      = List.range g.rules.length := by
    unfold listed
    rw [List.map_map]
    exact List.ext_getElem (by simp) fun n _ _ => by simp
  refine List.Nodup.of_map RuleId.place ?_
  rw [hplaces]
  exact List.nodup_range

theorem nodup_listed (g : GrammarContents E) : g.listed.Nodup :=
  g.nodup_ids.of_map _

/-- The rules are listed, and no others. -/
theorem mem_rules_iff {r : Rule} :
    r ∈ g.rules ↔ ∃ q ∈ g.listed, q.rule = r := by
  constructor
  · intro h
    obtain ⟨n, hn⟩ := List.mem_iff_getElem?.1 h
    obtain ⟨hlt, hget⟩ := List.getElem?_eq_some_iff.1 hn
    exact ⟨⟨⟨g.number, n⟩, r⟩, List.mem_mapIdx.2 ⟨n, hlt, by rw [hget]⟩, rfl⟩
  · intro h
    obtain ⟨q, hq, rfl⟩ := h
    obtain ⟨n, hn, rfl⟩ := List.mem_mapIdx.1 hq
    exact List.getElem_mem hn

theorem number_of_mem_listed {r : ListedRule} (hr : r ∈ g.listed) :
    r.id.grammar = g.number := by
  obtain ⟨n, hn, rfl⟩ := List.mem_mapIdx.1 hr
  rfl

-- ============================================================ matching

/-- Nonterminals accept themselves and nothing else does. -/
theorem accepts_nonterminal {s a : Symbol} (ha : a < 0) :
    g.Accepts v s a ↔ s = a := by
  unfold Accepts
  rw [if_neg fun h => absurd h.2 (not_le.2 ha)]

/-- What accepts a terminal is no nonterminal. -/
theorem Accepts.nonneg {s a : Symbol} (h : g.Accepts v s a) (ha : 0 ≤ a) :
    0 ≤ s := by
  unfold Accepts at h
  split at h
  · exact h.1
  · exact h ▸ ha

/-- What a table has for a label: what `f` makes of its spelling, if it is a
terminal and has one. -/
theorem lookup_spelled {α : Type} (f : String → α) {w : Vocabulary}
    {labels : List Symbol} {s : Symbol} {x : α} :
    (((labels.filter (!·.isNonterminal)).filterMap fun s =>
        (w.word? s).map fun u => (s, f u)).lookup s = some x)
      ↔ s ∈ labels ∧ 0 ≤ s ∧ ∃ u, w.word? s = some u ∧ f u = x := by
  have hmem : ∀ t y, (t, y) ∈ ((labels.filter (!·.isNonterminal)).filterMap
        fun s => (w.word? s).map fun u => (s, f u))
      ↔ t ∈ labels ∧ 0 ≤ t ∧ ∃ u, w.word? t = some u ∧ f u = y := by
    intro t y
    simp only [List.mem_filterMap, List.mem_filter, Option.map_eq_some_iff,
      Bool.not_eq_true', Symbol.isNonterminal_eq_false, Prod.mk.injEq]
    constructor
    · intro h'
      obtain ⟨t, ⟨ht, hpos⟩, u, hu, rfl, hy⟩ := h'
      exact ⟨ht, hpos, u, hu, hy⟩
    · intro h'
      obtain ⟨ht, hpos, u, hu, hy⟩ := h'
      exact ⟨t, ⟨ht, hpos⟩, u, hu, rfl, hy⟩
  have hlookup : ∀ {es : List (Symbol × α)} {y},
      es.lookup s = some y → (s, y) ∈ es := by
    intro es y h
    obtain ⟨es₁, es₂, rfl, -⟩ := List.lookup_eq_some_iff.1 h
    exact List.mem_append_right _ (List.mem_cons_self ..)
  constructor
  · exact fun h => (hmem s x).1 (hlookup h)
  · intro h
    cases hy : (((labels.filter (!·.isNonterminal)).filterMap fun s =>
        (w.word? s).map fun u => (s, f u)).lookup s) with
    | none =>
        rw [List.lookup_eq_none_iff] at hy
        simpa using hy _ ((hmem s x).2 h)
    | some y =>
        obtain ⟨-, -, u, hu, hx⟩ := h
        obtain ⟨-, -, u', hu', hy'⟩ := (hmem s y).1 (hlookup hy)
        rw [hu] at hu'
        injection hu' with hu'
        rw [← hx, ← hy', hu']

/-- A label of the tree accepts what the symbol does. -/
theorem accepts_matching {s a : Symbol}
    (hs : s ∈ g.grammar.root.allLabels) :
    g.grammar.matching.accepts v s a = true ↔ g.Accepts v s a := by
  rw [matching_grammar]
  unfold Accepts
  by_cases hmode : g.options.labelPatterns = true
  · rw [if_pos hmode]
    unfold Matching.ofLabels Matching.accepts
    by_cases ha : 0 ≤ a
    · have hneg := Symbol.isNonterminal_eq_false.2 ha
      simp only [if_pos (And.intro hmode ha), hneg, Bool.false_eq_true,
        if_false]
      have hs : s ∈ g.grammar.root.allLabels.eraseDups :=
        List.mem_eraseDups.2 hs
      constructor
      · intro h
        split at h
        case h_1 p u hp hu =>
          obtain ⟨-, hpos, w, hw, rfl⟩ := (lookup_spelled _).1 hp
          exact ⟨hpos, w, u, hw, hu, h⟩
        case h_2 => cases h
      · intro h'
        obtain ⟨hpos, w, u, hw, hu, h⟩ := h'
        rw [(lookup_spelled _).2 ⟨hs, hpos, w, hw, rfl⟩, hu]
        exact h
    · have hneg := Symbol.isNonterminal_eq_true.2 (not_le.1 ha)
      simp only [ha, and_false, hneg, if_true, if_false, beq_iff_eq]
  · rw [if_neg hmode, if_neg fun h => hmode h.1]
    exact beq_iff_eq

/-- The root accepts along a list of labels what the symbols do. -/
theorem forall₂_accepts_matching {path labels : List Symbol}
    (hpath : (g.grammar.root.at? path).isSome) :
    List.Forall₂ (fun s a => g.grammar.matching.accepts v s a = true) path
        labels
      ↔ List.Forall₂ (g.Accepts v) path labels := by
  obtain ⟨u, hu⟩ := Option.isSome_iff_exists.1 hpath
  have hmem := Trie.mem_allLabels hu
  clear hu hpath
  induction path generalizing labels with
  | nil => simp only [List.forall₂_nil_left_iff]
  | cons s path ih =>
      have hs : ∀ a,
          g.grammar.matching.accepts v s a = true ↔ g.Accepts v s a := fun a =>
        accepts_matching (hmem s (List.mem_cons_self ..))
      have hpath : ∀ a ∈ path, a ∈ g.grammar.root.allLabels := fun a ha =>
        hmem a (List.mem_cons_of_mem _ ha)
      have hrest := fun labels => @ih labels hpath
      simp only [List.forall₂_cons_left_iff, hs, hrest]

end GrammarContents

end LatticeParsing
