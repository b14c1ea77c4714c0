/-
Input text is no grammar.

What is derived over a span leaves no position of the span out: each lies
under an arc that a symbol of a rule has accepted
(`Derivable.exists_accepted`). Where labels are no patterns the symbol is the
label of the arc, and as a symbol of a rule it is spelled like its kind. A
word of the input that is spelled like a nonterminal is a terminal of its own,
which no rule has, so nothing is derived over it.
-/
import LatticeParsing.Proofs.Lattice.Building
import LatticeParsing.Proofs.Parse.Monotonicity
import LatticeParsing.Proofs.Report.Summaries

namespace LatticeParsing

variable {E : PatternEngine} {l : Lattice} {gs : List (GrammarContents E)}
  {v : Vocabulary}

-- ============================================================= coverage

/-- Whether a symbol of a rule accepts an input symbol. -/
def Accepted (gs : List (GrammarContents E)) (v : Vocabulary) (a : Symbol) :
    Prop :=
  ∃ g ∈ gs, ∃ r ∈ g.rules, ∃ s ∈ r.source, g.Accepts v s a

mutual

/-- Every position of a derived span lies under an arc with a label that a
rule accepts. -/
theorem Derivable.exists_accepted {p : Nat} :
    ∀ {i j : Nat} {lhs : Symbol}, Derivable l gs v i j lhs → i ≤ p → p < j →
      ∃ t, ∃ a ∈ l.arcsFrom t,
        t ≤ p ∧ p < a.head ∧ 0 ≤ a.label ∧ Accepted gs v a.label
  | _, _, _, .rule hg hr _ _ hmatches, hi, hj =>
      Matches.exists_accepted
        (fun s hs _ hacc => ⟨_, hg, _,
          GrammarContents.mem_rules_iff.2 ⟨_, hr, rfl⟩, s, hs, hacc⟩)
        hmatches hi hj

theorem Matches.exists_accepted {p : Nat} :
    ∀ {g : GrammarContents E} {i j : Nat} {source : List Symbol},
      (∀ s ∈ source, ∀ a, g.Accepts v s a → Accepted gs v a) →
      Matches l gs v g j i source → i ≤ p → p < j →
      ∃ t, ∃ a ∈ l.arcsFrom t,
        t ≤ p ∧ p < a.head ∧ 0 ≤ a.label ∧ Accepted gs v a.label
  | _, _, _, _, _, .nil, hi, hj => absurd hj (Nat.not_lt.2 hi)
  | _, i, _, _, hsource, .terminal (a := a) ha _ hlabel hacc hrest, hi, hj => by
      rw [List.forall_mem_cons] at hsource
      by_cases hp : p < a.head
      · exact ⟨i, a, ha, hi, hp, hlabel, hsource.1 a.label hacc⟩
      · exact Matches.exists_accepted hsource.2 hrest (Nat.not_lt.1 hp) hj
  | _, _, _, _, hsource, .nonterminal (k := k) _ hderivable hrest, hi, hj => by
      rw [List.forall_mem_cons] at hsource
      by_cases hp : p < k
      · exact Derivable.exists_accepted hderivable hi hp
      · exact Matches.exists_accepted hsource.2 hrest (Nat.not_lt.1 hp) hj

end

/-- What is derived over words has accepted them all. -/
theorem Derivable.accepted_word {words : List Symbol} {i j p : Nat}
    {lhs : Symbol} (h : Derivable (.ofSentence words) gs v i j lhs)
    (hi : i ≤ p) (hj : p < j) :
    ∃ a, words[p]? = some a ∧ 0 ≤ a ∧ Accepted gs v a := by
  obtain ⟨t, a, ha, ht, hp, hlabel, hacc⟩ := h.exists_accepted hi hj
  obtain ⟨hhead, hword⟩ := Lattice.mem_arcsFrom_ofSentence ha
  obtain rfl : t = p := by omega
  exact ⟨a.label, hword, hlabel, hacc⟩

-- ================================================================ words

/-- A terminal that a grammar without patterns accepts is no nonterminal by its
spelling. -/
theorem GrammarContents.LoadedInto.isNonterminal_of_accepted
    {g : GrammarContents E} {a : Symbol} {w : String} (h : g.LoadedInto v)
    (hexact : g.options.labelPatterns = false) (ha : 0 ≤ a)
    (hacc : Accepted [g] v a) (hw : v.word? a = some w) :
    Label.isNonterminal w = false := by
  obtain ⟨g', hg', r, hr, s, hs, hacc⟩ := hacc
  obtain rfl := List.mem_singleton.1 hg'
  have hsame : s = a := by
    unfold GrammarContents.Accepts at hacc
    rwa [if_neg fun hmode => Bool.false_ne_true (hexact ▸ hmode.1)] at hacc
  subst hsame
  obtain ⟨u, hu, hkind⟩ := h.finished.isGrammarSymbol
    (h.isGrammarSymbol hr (List.mem_cons_of_mem _ hs))
  rw [hw] at hu
  injection hu with hu
  subst hu
  exact Bool.eq_false_iff.2 (mt hkind.2 (Int.not_lt.2 ha))

theorem Vocabulary.length_internWords (v : Vocabulary) (ws : List String) :
    (v.internWords ws).2.length = ws.length := by
  have hlength := congrArg List.length (v.word?_internWords ws)
  simpa using hlength

/-- A word of a sentence over which a grammar without patterns derives
something is not spelled like a nonterminal. -/
theorem Derivable.isNonterminal_word {g : GrammarContents E} {v' : Vocabulary}
    {ws : List String} {i j p : Nat} {lhs : Symbol} (hloaded : g.LoadedInto v)
    (hexact : g.options.labelPatterns = false)
    (hgrows : (v.internWords ws).1.Grows v')
    (h : Derivable (.ofSentence (v.internWords ws).2) [g] v' i j lhs)
    (hi : i ≤ p) (hj : p < j) :
    ∃ w, ws[p]? = some w ∧ Label.isNonterminal w = false := by
  obtain ⟨a, ha, hsign, hacc⟩ := h.accepted_word hi hj
  have hspelled := congrArg (·[p]?) (v.word?_internWords ws)
  simp only [List.getElem?_map, ha] at hspelled
  obtain ⟨w, hw, hwa⟩ := Option.map_eq_some_iff.1 hspelled.symm
  have hloaded' := hloaded.grows ((v.grows_internWords ws).trans hgrows)
  exact ⟨w, hw, hloaded'.isNonterminal_of_accepted hexact hsign hacc
    (hgrows.word? hwa.symm)⟩

/-- The text of an input cannot act as grammar. A sentence is parsed with the
rules of any text that is read, and for any goal. Then every position of every
constituent holds a word, and none of these words is spelled like a
nonterminal; nor is the goal reached if there is such a word anywhere in the
sentence. -/
theorem input_text_is_no_grammar {grammar : String} {v : Vocabulary}
    {g' : Grammar} (h : Grammar.ofText 0 {} {} grammar = (v, .ok g'))
    (sentence goal : String) :
    ∃ s, Summary.ofTexts sentence grammar goal = .ok s
      ∧ (∀ c ∈ s.constituents, ∀ p, c.start ≤ p → p < c.stop →
          ∃ w, (Text.stringWords sentence)[p]? = some w
            ∧ Label.isNonterminal w = false)
      ∧ ((∃ w ∈ Text.stringWords sentence, Label.isNonterminal w = true) →
          s.goalReached = false) := by
  obtain ⟨g, -, hoptions, rfl, hloaded⟩ :=
    GrammarContents.exists_loadedInto h
  obtain ⟨r, -, hstate, hgoal, hsummary⟩ := Charting.exists_summary
    (.ofSentence (v.internWords (Text.stringWords sentence)).2) [g]
    (v.internWords (Text.stringWords sentence)).1 goal
  have hgrows := Vocabulary.Grows.intern
    (v := (v.internWords (Text.stringWords sentence)).1) goal .refl
  have hexact : g.options.labelPatterns = false := by rw [hoptions]
  refine ⟨r.summary ((v.internWords (Text.stringWords sentence)).1.intern
    goal).1, ?_, fun c hc p hi hj => ?_, fun hbracket => ?_⟩
  · unfold Summary.ofTexts
    rw [h]
    show (Grammar.summarize _ ([g].map (·.grammar)) _ goal).mapError _ = _
    rw [hsummary]
    rfl
  · obtain ⟨id, c', hc', rfl⟩ := ParseResult.mem_constituents.1 hc
    rw [hstate, Charting.forest_toParse] at hc'
    exact (Charting.derivable_of_constituent hc').isNonterminal_word hloaded
      hexact hgrows hi hj
  · show r.goal.isSome = false
    rw [hgoal, hstate, Bool.eq_false_iff]
    intro hsome
    rw [Charting.isSome_goal?_iff, Lattice.sourceLength_ofSentence,
      Vocabulary.length_internWords] at hsome
    obtain ⟨w, hw, hlabel⟩ := hbracket
    obtain ⟨p, hp, rfl⟩ := List.mem_iff_getElem.1 hw
    obtain ⟨u, hu, hplain⟩ := hsome.isNonterminal_word hloaded hexact hgrows
      (Nat.zero_le p) hp
    rw [List.getElem?_eq_getElem hp] at hu
    injection hu with hu
    rw [hu, hplain] at hlabel
    cases hlabel

/-- A rule asks for a nonterminal behind a word; the same spelling in the
sentence does not do. -/
theorem input_text_is_no_grammar_two_words :
    ∃ v g, Grammar.ofText 0 {} {} "[X] ||| a ||| x\n[S] ||| a [X] ||| a [X,1]"
        = (v, .ok g)
      ∧ ∃ s, Summary.ofTexts "a [X]"
            "[X] ||| a ||| x\n[S] ||| a [X] ||| a [X,1]" "[S]" = .ok s
        ∧ s.goalReached = false := by
  have hread : Rule.ofText {} "[X] ||| a ||| x\n[S] ||| a [X] ||| a [X,1]"
      = (⟨#["a"], #["[X]", "[S]"]⟩,
          .ok [⟨-1, [1], "x"⟩, ⟨-2, [1, -1], "a [X,1]"⟩]) := by decide +kernel
  have hload : Grammar.ofText 0 {} {}
        "[X] ||| a ||| x\n[S] ||| a [X] ||| a [X,1]"
      = (⟨#["a"], #["[X]", "[S]"]⟩,
          .ok (GrammarContents.mk (E := .standard) 0 {} [⟨-1, [1], "x"⟩,
            ⟨-2, [1, -1], "a [X,1]"⟩] ⟨#["a"], #["[X]", "[S]"]⟩).grammar) := by
    unfold Grammar.ofText
    rw [GrammarDraft.addText_eq, hread]
    rfl
  obtain ⟨s, hs, -, hgoal⟩ := input_text_is_no_grammar hload "a [X]" "[S]"
  exact ⟨_, _, hload, s, hs, hgoal
    ⟨"[X]", by decide +kernel, by decide +kernel⟩⟩

end LatticeParsing
