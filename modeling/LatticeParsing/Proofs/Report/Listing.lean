/-
Constituents are listed narrow first and none twice.

A summary lists the constituents by their numbers. These follow the order in
which spans are taken (`Charting.numbered_final`), so the list is in order
though nothing is ever sorted. Symbols are shown by their spellings, and the
left-hand sides of rules that have been read are told apart by them
(`Vocabulary.Distinct.display_inj`), so constituents are told apart by what is
shown.
-/
import LatticeParsing.Proofs.Grammar.Loading
import LatticeParsing.Proofs.Lattice.Distances
import LatticeParsing.Proofs.Parse.Derivations
import LatticeParsing.Proofs.Parse.Founded
import LatticeParsing.Proofs.Parse.Naming
import LatticeParsing.Proofs.Parse.Numbering
import LatticeParsing.Proofs.Report.Summaries
import LatticeParsing.Proofs.Symbol.Calls

namespace LatticeParsing

variable {E : PatternEngine}

-- ================================================================ shown

/-- What a summary shows of the place of a constituent. -/
def ConstituentSummary.place (c : ConstituentSummary) : String × Nat × Nat :=
  (c.lhs, c.start, c.stop)

/-- Whether a constituent may be listed before another: its span is narrower,
or as wide and starts no further to the right. -/
def ConstituentSummary.Precedes (c d : ConstituentSummary) : Prop :=
  c.stop - c.start < d.stop - d.start
    ∨ c.stop - c.start = d.stop - d.start ∧ c.start ≤ d.start

instance (c d : ConstituentSummary) : Decidable (c.Precedes d) :=
  inferInstanceAs (Decidable (_ ∨ _))

/-- Grammar symbols that are shown alike are the same. -/
theorem Vocabulary.Distinct.display_inj {v : Vocabulary} {s t : Symbol}
    (h : v.Distinct) (hs : v.IsGrammarSymbol s) (ht : v.IsGrammarSymbol t)
    (heq : v.display s = v.display t) : s = t := by
  obtain ⟨w, hw, hsign⟩ := hs
  obtain ⟨u, hu, hsign'⟩ := ht
  have hshown : w = u := by
    unfold display at heq
    rwa [hw, hu] at heq
  subst hshown
  exact h.word?_inj hw hu (hsign.trans hsign'.symm)

/-- Constituents whose left-hand sides are grammar symbols are told apart by
what is shown of their places. -/
theorem Forest.Sound.nodup_shown {f : Forest} {v : Vocabulary} (h : f.Sound)
    (hv : v.Distinct)
    (hlhs : ∀ c ∈ f.constituents.toList, v.IsGrammarSymbol c.lhs) :
    (f.constituents.toList.map fun c => (c.summary v).place).Nodup := by
  have hplaces := h.nodup_places
  rw [List.Nodup, List.pairwise_map] at hplaces ⊢
  refine hplaces.imp_of_mem fun {c d} hc hd hne heq => hne ?_
  simp only [ConstituentSummary.place, Constituent.summary,
    Prod.mk.injEq] at heq
  obtain ⟨hshown, hstart, hstop⟩ := heq
  have hsame := hv.display_inj (hlhs c hc) (hlhs d hd) hshown
  simp only [Constituent.place, hsame, hstart, hstop]

-- ================================================================ order

/-- Constituents that are numbered in the order of their spans are listed in
this order. -/
theorem Forest.Numbered.pairwise_precedes {f : Forest}
    {done : List (Nat × Nat)} (h : f.Numbered done) (v : Vocabulary) :
    (f.constituents.toList.map (·.summary v)).Pairwise
      ConstituentSummary.Precedes := by
  rw [List.pairwise_map, List.pairwise_iff_getElem]
  intro k m hk hm hkm
  have hc := List.getElem?_eq_getElem hk
  have hc' := List.getElem?_eq_getElem hm
  rw [Array.getElem?_toList] at hc hc'
  -- constituents over one span follow each other in any order
  rcases h.ascending k m _ _ hc hc' hkm with hspan | hearlier
  · obtain ⟨hstart, hstop⟩ := Prod.mk.inj hspan
    refine Or.inr ⟨?_, Nat.le_of_eq hstart⟩
    simp only [Constituent.summary, hstart, hstop]
  · rcases hearlier with hwidth | ⟨hwidth, hstart⟩
    · exact Or.inl hwidth
    · exact Or.inr ⟨hwidth, Nat.le_of_lt hstart⟩

-- ============================================================== listing

namespace Charting

variable {l : Lattice} {gs : List (GrammarContents E)} {v : Vocabulary}
  {c : Constituent} {id : Nat}

/-- The left-hand side of a constituent is that of a rule. -/
theorem exists_rule_of_constituent
    (hc : (final l (gs.map (·.view v))).forest.constituents[id]? = some c) :
    ∃ g ∈ gs, ∃ r ∈ g.rules, r.lhs = c.lhs ∧ g.Covers l c.start c.stop := by
  obtain ⟨d, -, hd, -⟩ := exists_first_derivation hc
  obtain ⟨g, hg, hr, hlhs, hcovers, -⟩ := realises_of_mem_derivations hc hd
  exact ⟨g, hg, d.rule.rule, GrammarContents.mem_rules_iff.2 ⟨_, hr, rfl⟩,
    hlhs, hcovers⟩

/-- Where all grammars have been loaded the left-hand sides of constituents
are grammar symbols. -/
theorem isGrammarSymbol_lhs (hloaded : ∀ g ∈ gs, g.LoadedInto v)
    (hc : (final l (gs.map (·.view v))).forest.constituents[id]? = some c) :
    v.IsGrammarSymbol c.lhs := by
  obtain ⟨g, hg, r, hr, hlhs, -⟩ := exists_rule_of_constituent hc
  have hinto := hloaded g hg
  rw [← hlhs]
  exact hinto.finished.isGrammarSymbol
    (hinto.isGrammarSymbol hr (List.mem_cons_self ..))

/-- A constituent stands over a path. -/
theorem exists_path_of_constituent
    (hc : (final l (gs.map (·.view v))).forest.constituents[id]? = some c) :
    ∃ as, l.Path c.start as c.stop := by
  obtain ⟨g, -, r, -, -, d, hd, -⟩ := exists_rule_of_constituent hc
  obtain ⟨-, as, has, -⟩ := Lattice.exists_path_of_distance hd
  exact ⟨as, has⟩

end Charting

/-- A lattice is parsed with grammars that have been loaded into one
vocabulary, which was fresh at the start. Then the constituents of the summary
are listed by the width of their spans and by start within a width, and no
left-hand side is listed twice over the same span. Each span is a proper one
of the lattice with a path along it, and each constituent has a rule. -/
theorem constituents_are_listed_in_order (l : Lattice)
    {gs : List (GrammarContents E)} {v : Vocabulary}
    (hv : ({} : Vocabulary).Grows v) (hloaded : ∀ g ∈ gs, g.LoadedInto v)
    (goal : String) :
    ∃ s, Grammar.summarize v (gs.map (·.grammar)) l goal = .ok s
      ∧ s.constituents.Pairwise ConstituentSummary.Precedes
      ∧ (s.constituents.map ConstituentSummary.place).Nodup
      ∧ ∀ c ∈ s.constituents, c.start < c.stop ∧ c.stop ≤ l.sourceLength
          ∧ (∃ as, l.Path c.start as c.stop) ∧ c.rules ≠ [] := by
  obtain ⟨r, -, hstate, -, hsummary⟩ :=
    Charting.exists_summary l gs v goal
  have hgrows := Vocabulary.Grows.intern goal (.refl (v := v))
  have hdistinct := (hv.trans hgrows).distinct Vocabulary.distinct_empty
  have hlhs : ∀ c ∈ r.parse.forest.constituents.toList,
      (v.intern goal).1.IsGrammarSymbol c.lhs := by
    intro c hmem
    rw [hstate, Charting.forest_toParse, Array.mem_toList_iff] at hmem
    obtain ⟨id, hc⟩ := Array.mem_iff_getElem?.1 hmem
    exact Charting.isGrammarSymbol_lhs
      (fun g hg => (hloaded g hg).grows hgrows) hc
  refine ⟨r.summary (v.intern goal).1, hsummary, ?_, ?_, fun c hmem => ?_⟩
  · show (r.parse.forest.constituents.toList.map _).Pairwise _
    rw [hstate, Charting.forest_toParse]
    exact (Charting.numbered_final l _).pairwise_precedes _
  · show ((r.parse.forest.constituents.toList.map _).map _).Nodup
    rw [List.map_map]
    refine Forest.Sound.nodup_shown ?_ hdistinct hlhs
    rw [hstate, Charting.forest_toParse]
    exact (Charting.fit_final l _).sound
  · obtain ⟨id, c', hc, rfl⟩ := ParseResult.mem_constituents.1 hmem
    rw [hstate, Charting.forest_toParse] at hc
    obtain ⟨hspan, hbound, -⟩ := Charting.collects_final hc
    obtain ⟨d, -, hd, -⟩ := Charting.exists_first_derivation hc
    exact ⟨hspan, hbound, Charting.exists_path_of_constituent hc,
      List.ne_nil_of_mem (List.mem_map_of_mem hd)⟩

/-- A word and a rule for the constituent over it, which is read first. -/
theorem constituents_are_listed_in_order_one_word :
    ({} : Vocabulary).Grows ⟨#["a"], #["[X]", "[S]"]⟩
      ∧ (∀ g ∈ [GrammarContents.mk (E := .standard) 0 {}
            [⟨-2, [-1], "[X,1]"⟩, ⟨-1, [1], "x"⟩] ⟨#["a"], #["[X]", "[S]"]⟩],
          g.LoadedInto ⟨#["a"], #["[X]", "[S]"]⟩)
      ∧ ∃ s, Grammar.summarize ⟨#["a"], #["[X]", "[S]"]⟩
            ([GrammarContents.mk (E := .standard) 0 {}
              [⟨-2, [-1], "[X,1]"⟩, ⟨-1, [1], "x"⟩]
              ⟨#["a"], #["[X]", "[S]"]⟩].map (·.grammar))
            (.ofSentence [1]) "[S]" = .ok s
        ∧ s.constituents.Pairwise ConstituentSummary.Precedes
        ∧ (s.constituents.map ConstituentSummary.place).Nodup := by
  have hread : Rule.ofText {} "[S] ||| [X] ||| [X,1]\n[X] ||| a ||| x"
      = (⟨#["a"], #["[X]", "[S]"]⟩,
          .ok [⟨-2, [-1], "[X,1]"⟩, ⟨-1, [1], "x"⟩]) := by decide +kernel
  have hgrows := Rule.grows_ofText hread
  have hloaded : ∀ g ∈ [GrammarContents.mk (E := .standard) 0 {}
        [⟨-2, [-1], "[X,1]"⟩, ⟨-1, [1], "x"⟩] ⟨#["a"], #["[X]", "[S]"]⟩],
      g.LoadedInto ⟨#["a"], #["[X]", "[S]"]⟩ :=
    List.forall_mem_singleton.2
      (GrammarContents.loadedInto_of_ofText hread 0 {})
  obtain ⟨s, hs, horder, hnodup, -⟩ := constituents_are_listed_in_order
    (.ofSentence [1]) hgrows hloaded "[S]"
  exact ⟨hgrows, hloaded, s, hs, horder, hnodup⟩

end LatticeParsing
