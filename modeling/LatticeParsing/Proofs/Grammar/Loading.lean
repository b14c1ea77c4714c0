/-
Grammars that have been loaded from text.

A grammar may be loaded from several texts, and before it is finished, and
afterwards too, the vocabulary may grow (`GrammarContents.LoadedInto`). As
spellings stay, the labels of such a grammar are spelled at all times like
they were when it was finished. So what a symbol of its rules accepts depends
on the vocabulary and on whether labels are patterns, but not on the grammar
in which the rule stands (`LoadedInto.accepts_iff`).
-/
import LatticeParsing.Proofs.Grammar.Drafting
import LatticeParsing.Proofs.Rule.Lines

namespace LatticeParsing

variable {E : PatternEngine} {v v' : Vocabulary} {g : GrammarContents E}
  {r : Rule} {s a : Symbol}

-- ============================================================== loading

/-- Whether a symbol `s` of a source side accepts an input symbol `a` while
both are spelled as `v` spells them. -/
def Vocabulary.Accepts (v : Vocabulary) (E : PatternEngine)
    (labelPatterns : Bool) (s a : Symbol) : Prop :=
  if labelPatterns = true ∧ 0 ≤ a then
    0 ≤ s ∧ ∃ w u, v.word? s = some w ∧ v.word? a = some u
      ∧ (LabelPattern.ofLabel E w).accepts u = true
  else s = a

/-- What is accepted stays accepted as the vocabulary grows. -/
theorem Vocabulary.Grows.accepts (h : v.Grows v') {labelPatterns : Bool}
    (haccepts : v.Accepts E labelPatterns s a) :
    v'.Accepts E labelPatterns s a := by
  unfold Vocabulary.Accepts at haccepts ⊢
  split
  case isTrue hmode =>
    rw [if_pos hmode] at haccepts
    obtain ⟨hs, w, u, hw, hu, hp⟩ := haccepts
    exact ⟨hs, w, u, h.word? hw, h.word? hu, hp⟩
  case isFalse hmode =>
    rw [if_neg hmode] at haccepts
    exact haccepts

namespace GrammarContents

/-- Whether a grammar has been loaded from text into a vocabulary that is now
`v`. Its rules are those of some texts, each read into what the vocabulary
was when it was loaded. After that it has grown to what it was when the
grammar was finished, and since then to `v`. -/
structure LoadedInto (g : GrammarContents E) (v : Vocabulary) : Prop where
  loaded : ∃ texts : List (Vocabulary × String),
    g.rules = texts.flatMap (fun t => (DraftCall.load t.1 t.2).rules)
      ∧ ∀ t ∈ texts, (Rule.ofText t.1 t.2).1.Grows g.spellings
  finished : g.spellings.Grows v

namespace LoadedInto

/-- A grammar stays loaded as the vocabulary grows. -/
theorem grows (h : g.LoadedInto v) (hgrows : v.Grows v') :
    g.LoadedInto v' :=
  ⟨h.loaded, h.finished.trans hgrows⟩

/-- The rules of a grammar are made of grammar symbols when it is
finished. -/
theorem isGrammarSymbol (h : g.LoadedInto v) (hr : r ∈ g.rules)
    (hs : s ∈ r.lhs :: r.source) : g.spellings.IsGrammarSymbol s := by
  obtain ⟨texts, hrules, hgrows⟩ := h.loaded
  rw [hrules] at hr
  obtain ⟨t, ht, hr⟩ := List.mem_flatMap.1 hr
  unfold DraftCall.rules at hr
  simp only at hr
  cases htext : (Rule.ofText t.1 t.2).2 with
  | error e =>
      rw [htext] at hr
      cases hr
  | ok rs =>
      rw [htext] at hr
      exact (hgrows t ht).isGrammarSymbol
        (Rule.isGrammarSymbol_ofText (Prod.ext rfl htext) hr hs)

/-- What a symbol of a rule accepts does not depend on the grammar that lists
the rule. -/
theorem accepts_iff (h : g.LoadedInto v) (hr : r ∈ g.rules)
    (hs : s ∈ r.source) :
    g.Accepts v s a ↔ v.Accepts E g.options.labelPatterns s a := by
  obtain ⟨w, hw, -⟩ := h.isGrammarSymbol hr (List.mem_cons_of_mem _ hs)
  have hword := h.finished.word? hw
  unfold GrammarContents.Accepts Vocabulary.Accepts
  rw [hw, hword]

end LoadedInto

/-- The grammar of a text has been loaded when the text has been read. -/
theorem loadedInto_of_ofText {text : String} {rs : List Rule}
    (h : Rule.ofText v text = (v', .ok rs)) (number : Nat)
    (options : GrammarOptions) :
    LoadedInto (E := E) ⟨number, options, rs, v'⟩ v' where
  loaded := by
    refine ⟨[(v, text)], by simp [DraftCall.rules, h], fun t ht => ?_⟩
    rw [List.mem_singleton.1 ht, h]
    exact .refl
  finished := .refl

/-- So the grammars of the program have been loaded. -/
theorem exists_loadedInto {number : Nat} {options : GrammarOptions}
    {text : String} {g' : Grammar}
    (h : Grammar.ofText number options v text E = (v', .ok g')) :
    ∃ g : GrammarContents E, g.number = number ∧ g.options = options
      ∧ g.grammar = g' ∧ g.LoadedInto v' := by
  unfold Grammar.ofText at h
  rw [GrammarDraft.addText_eq] at h
  rcases hread : Rule.ofText v text with ⟨u, _ | rs⟩
  · rw [hread] at h
    injection h with _ h
    cases h
  · rw [hread] at h
    injection h with hv hg
    injection hg with hg
    subst hv hg
    exact ⟨⟨number, options, rs, u⟩, rfl, rfl, rfl,
      loadedInto_of_ofText hread number options⟩

end GrammarContents

end LatticeParsing
