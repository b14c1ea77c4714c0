/-
More arcs, rules and grammars derive more.

An arc more can make paths shorter and never longer (`Lattice.Covers`), and a
rule is allowed over a span if the shortest path is within a limit. So what
one grammar covers, another covers on a lattice with more arcs if its limit
is none or not less (`GrammarContents.Covers.mono`). With that and rules that
occur again (`Resumes`), a derivation can be repeated step by step
(`Derivable.mono`). What is derived is what a parse finds.
-/
import LatticeParsing.Proofs.Grammar.Loading
import LatticeParsing.Proofs.Lattice.Distances
import LatticeParsing.Proofs.Lattice.Reading
import LatticeParsing.Proofs.Parse.Derivability

namespace LatticeParsing

variable {E : PatternEngine} {l l' : Lattice}
  {gs gs' : List (GrammarContents E)} {g g' : GrammarContents E}
  {v v' : Vocabulary} {i j : Nat} {r : Rule} {s a : Symbol}
  {labelPatterns : Bool}

-- =============================================================== limits

/-- Whether a grammar sets no limit or one that is not less than that of
another. -/
def GrammarContents.Admits (g' g : GrammarContents E) : Prop :=
  ∀ limit', g'.options.spanLimit = some limit' →
    ∃ limit, g.options.spanLimit = some limit ∧ limit ≤ limit'

/-- A span that one grammar covers is covered by one that admits as much, on
a lattice with more arcs. -/
theorem GrammarContents.Covers.mono (h : g.Covers l i j)
    (hadmits : g'.Admits g) (harcs : l'.Covers l)
    (hnodes : l'.nodeCount = l.nodeCount) : g'.Covers l' i j := by
  obtain ⟨d, hd, hlimit⟩ := h
  obtain ⟨d', hd', hle⟩ := harcs.distance_le hnodes hd
  refine ⟨d', hd', fun limit' hlimit' => ?_⟩
  obtain ⟨limit, hset, hadmitted⟩ := hadmits limit' hlimit'
  have hwithin := hlimit limit hset
  omega

-- ================================================================ rules

/-- Whether every rule of some grammars occurs in others too, each in one
that admits as much as the grammar in which it stands. -/
def Resumes (gs gs' : List (GrammarContents E)) : Prop :=
  ∀ g ∈ gs, ∀ r ∈ g.rules, ∃ g' ∈ gs', r ∈ g'.rules ∧ g'.Admits g

/-- Whether grammars have been loaded into one vocabulary, with terminal
labels that are patterns in all of them or in none. -/
structure Loaded (v : Vocabulary) (labelPatterns : Bool)
    (gs : List (GrammarContents E)) : Prop where
  into : ∀ g ∈ gs, g.LoadedInto v
  mode : ∀ g ∈ gs, g.options.labelPatterns = labelPatterns

/-- What a symbol of a rule accepts is the same in all grammars that have the
rule. -/
theorem Loaded.accepts_iff (h : Loaded v labelPatterns gs) (hg : g ∈ gs)
    (hr : r ∈ g.rules) (hs : s ∈ r.source) :
    g.Accepts v s a ↔ v.Accepts E labelPatterns s a := by
  rw [(h.into g hg).accepts_iff hr hs, h.mode g hg]

-- ========================================================== derivations

mutual

/-- What is derivable stays derivable with more arcs, with the rules and more
and with limits that are not less. -/
theorem Derivable.mono (harcs : l'.Covers l)
    (hnodes : l'.nodeCount = l.nodeCount) (hgrows : v.Grows v')
    (hloaded : Loaded v labelPatterns gs)
    (hloaded' : Loaded v' labelPatterns gs') (hrules : Resumes gs gs') :
    ∀ {i j : Nat} {lhs : Symbol}, Derivable l gs v i j lhs →
      Derivable l' gs' v' i j lhs
  | _, _, _, .rule (g := g) (r := q) hg hq hsource hcovers hmatches => by
      have hr := GrammarContents.mem_rules_iff.2 ⟨q, hq, rfl⟩
      obtain ⟨g', hg', hr', hadmits⟩ := hrules g hg q.rule hr
      obtain ⟨q', hq', heq⟩ := GrammarContents.mem_rules_iff.1 hr'
      have haccepts : ∀ s ∈ q.rule.source, ∀ a,
          g.Accepts v s a → g'.Accepts v' s a := by
        intro s hs a ha
        rw [hloaded'.accepts_iff hg' hr' hs]
        exact hgrows.accepts ((hloaded.accepts_iff hg hr hs).1 ha)
      have hmatches' := Matches.mono harcs hnodes hgrows hloaded hloaded'
        hrules haccepts hmatches
      rw [← heq] at hsource hmatches' ⊢
      exact .rule hg' hq' hsource (hcovers.mono hadmits harcs hnodes) hmatches'

/-- What matches still matches, if symbols accept as much. -/
theorem Matches.mono (harcs : l'.Covers l)
    (hnodes : l'.nodeCount = l.nodeCount) (hgrows : v.Grows v')
    (hloaded : Loaded v labelPatterns gs)
    (hloaded' : Loaded v' labelPatterns gs') (hrules : Resumes gs gs') :
    ∀ {g g' : GrammarContents E} {i j : Nat} {source : List Symbol},
      (∀ s ∈ source, ∀ a, g.Accepts v s a → g'.Accepts v' s a) →
      Matches l gs v g j i source → Matches l' gs' v' g' j i source
  | _, _, _, _, _, _, .nil => .nil
  | _, _, _, _, _, haccepts, .terminal ha hs hlabel hacc hrest => by
      rw [List.forall_mem_cons] at haccepts
      obtain ⟨b, hb, hhead, hsame⟩ := harcs _ _ ha
      have hrest' := Matches.mono harcs hnodes hgrows hloaded hloaded' hrules
        haccepts.2 hrest
      rw [← hhead] at hrest'
      rw [← hsame] at hlabel hacc
      exact .terminal hb hs hlabel (haccepts.1 _ hacc) hrest'
  | _, _, _, _, _, haccepts, .nonterminal hs hderivable hrest => by
      rw [List.forall_mem_cons] at haccepts
      exact .nonterminal hs
        (Derivable.mono harcs hnodes hgrows hloaded hloaded' hrules hderivable)
        (Matches.mono harcs hnodes hgrows hloaded hloaded' hrules haccepts.2
          hrest)

end

-- =============================================================== parses

namespace Charting

variable {c : Constituent} {id : Nat} {goal : Symbol}

/-- What one parse finds another finds too, with more arcs, with the rules
and more and with limits that are not less. -/
theorem exists_constituent_of_resumes (harcs : l'.Covers l)
    (hnodes : l'.nodeCount = l.nodeCount) (hgrows : v.Grows v')
    (hloaded : Loaded v labelPatterns gs)
    (hloaded' : Loaded v' labelPatterns gs') (hrules : Resumes gs gs')
    (hc : (final l (gs.map (·.view v))).forest.constituents[id]? = some c) :
    ∃ id', (c.lhs, id')
      ∈ (final l' (gs'.map (·.view v'))).forest.cellAt c.start c.stop :=
  exists_constituent_of_derivable ((derivable_of_constituent hc).mono harcs
    hnodes hgrows hloaded hloaded' hrules)

/-- The goal is reached if it is derivable over the whole lattice. -/
theorem isSome_goal?_iff :
    (((final l (gs.map (·.view v))).toParse (gs.map (·.view v))).goal? l
        goal).isSome
      ↔ Derivable l gs v 0 l.sourceLength goal := by
  have hsound := (fit_final l (gs.map (·.view v))).sound
  unfold Parse.goal?
  split
  case isTrue hzero =>
    refine iff_of_false (by simp) fun h => ?_
    have hlt := h.start_lt_stop
    omega
  case isFalse =>
    rw [← exists_mem_cellAt_iff, Option.isSome_iff_exists]
    exact exists_congr fun id => hsound.find?_eq_some

end Charting

/-- Parsing is monotone. Let two parses be given with grammars that have been
loaded from text into a vocabulary, which in the second parse is the same or
has grown; terminal labels are patterns in all of them or in none. Let the
lattices have equally many nodes and the second the arcs of the first, but
for their order and their costs, and let every rule of the first grammars
occur in some grammar of the second parse that has no limit or one that is
not less. Then both parses come to an end, every constituent of the first has
one in the second with the same left-hand side over the same span, and the
second reaches the goal if the first does. -/
theorem parsing_is_monotone {l l' : Lattice} {gs gs' : List (GrammarContents E)}
    {v v' : Vocabulary} {labelPatterns : Bool} (harcs : l'.Covers l)
    (hnodes : l'.nodeCount = l.nodeCount) (hgrows : v.Grows v')
    (hloaded : Loaded v labelPatterns gs)
    (hloaded' : Loaded v' labelPatterns gs') (hrules : Resumes gs gs')
    (goal : Symbol) :
    ∃ r r', l.parse (gs.map (·.view v)) goal = .ok r
      ∧ l'.parse (gs'.map (·.view v')) goal = .ok r'
      ∧ (∀ c ∈ r.parse.forest.constituents,
          ∃ c' ∈ r'.parse.forest.constituents,
            c'.lhs = c.lhs ∧ c'.start = c.start ∧ c'.stop = c.stop)
      ∧ (r.goal.isSome → r'.goal.isSome) := by
  obtain ⟨r, hparse, hstate, hgoal⟩ := Charting.exists_parse l gs v goal
  obtain ⟨r', hparse', hstate', hgoal'⟩ := Charting.exists_parse l' gs' v' goal
  have hsound' := (Charting.fit_final l' (gs'.map (·.view v'))).sound
  refine ⟨r, r', hparse, hparse', fun c hmem => ?_, fun hsome => ?_⟩
  · rw [hstate] at hmem
    rw [hstate']
    obtain ⟨id, hc⟩ := Array.mem_iff_getElem?.1 hmem
    obtain ⟨id', hid'⟩ := Charting.exists_constituent_of_resumes harcs hnodes
      hgrows hloaded hloaded' hrules hc
    obtain ⟨c', hc', hspan⟩ := hsound'.listed.1 hid'
    exact ⟨c', Array.mem_of_getElem? hc', hspan⟩
  · have hlength : l'.sourceLength = l.sourceLength := by
      unfold Lattice.sourceLength
      rw [hnodes]
    rw [hgoal, hstate, Charting.isSome_goal?_iff] at hsome
    rw [hgoal', hstate', Charting.isSome_goal?_iff, hlength]
    exact hsome.mono harcs hnodes hgrows hloaded hloaded' hrules

/-- A rule that is read again with another, an arc more and no limit any
more, where labels are patterns. -/
theorem parsing_is_monotone_one_word :
    ∃ l', Lattice.ofArcs 2 [⟨0, 1, .zero, 7⟩, ⟨0, 1, .zero, 2⟩] = .ok l'
      ∧ Loaded (E := .standard) ⟨#["a+", "aa"], #["[X]"]⟩ true
          [⟨0, ⟨some 1, true⟩, [⟨-1, [1], "A"⟩], ⟨#["a+"], #["[X]"]⟩⟩]
      ∧ Loaded (E := .standard) ⟨#["a+", "aa"], #["[X]", "[Y]"]⟩ true
          [⟨5, ⟨none, true⟩, [⟨-2, [-1], "B"⟩, ⟨-1, [1], "A"⟩],
            ⟨#["a+", "aa"], #["[X]", "[Y]"]⟩⟩]
      ∧ ∃ r r', (Lattice.ofSentence [2]).parse
            ([⟨0, ⟨some 1, true⟩, [⟨-1, [1], "A"⟩], ⟨#["a+"], #["[X]"]⟩⟩].map
              fun g : GrammarContents .standard =>
                g.view ⟨#["a+", "aa"], #["[X]"]⟩) (-1)
            = .ok r
        ∧ l'.parse
            ([⟨5, ⟨none, true⟩, [⟨-2, [-1], "B"⟩, ⟨-1, [1], "A"⟩],
                ⟨#["a+", "aa"], #["[X]", "[Y]"]⟩⟩].map
              fun g : GrammarContents .standard =>
                g.view ⟨#["a+", "aa"], #["[X]", "[Y]"]⟩) (-1)
            = .ok r'
        ∧ (r.goal.isSome → r'.goal.isSome) := by
  have hread : Rule.ofText {} "[X] ||| a+ ||| A"
      = (⟨#["a+"], #["[X]"]⟩, .ok [⟨-1, [1], "A"⟩]) := by decide +kernel
  have hread' : Rule.ofText ⟨#["a+", "aa"], #["[X]"]⟩
        "[Y] ||| [X] ||| B\n[X] ||| a+ ||| A"
      = (⟨#["a+", "aa"], #["[X]", "[Y]"]⟩,
          .ok [⟨-2, [-1], "B"⟩, ⟨-1, [1], "A"⟩]) := by decide +kernel
  have hword : (Vocabulary.internWord ⟨#["a+"], #["[X]"]⟩ "aa").1
      = ⟨#["a+", "aa"], #["[X]"]⟩ := by decide +kernel
  have hinto := GrammarContents.loadedInto_of_ofText (E := .standard) hread 0
    ⟨some 1, true⟩
  have hinto' := GrammarContents.loadedInto_of_ofText (E := .standard) hread' 5
    ⟨none, true⟩
  have hgrows : (⟨#["a+"], #["[X]"]⟩ : Vocabulary).Grows
      ⟨#["a+", "aa"], #["[X]"]⟩ := by
    rw [← hword]
    exact .internWord "aa" .refl
  have hgrows' := (Rule.grows_ofText hread')
  have hloaded : Loaded (E := .standard) ⟨#["a+", "aa"], #["[X]"]⟩ true
      [⟨0, ⟨some 1, true⟩, [⟨-1, [1], "A"⟩], ⟨#["a+"], #["[X]"]⟩⟩] :=
    ⟨List.forall_mem_singleton.2 (hinto.grows hgrows),
      List.forall_mem_singleton.2 rfl⟩
  have hloaded' : Loaded (E := .standard) ⟨#["a+", "aa"], #["[X]", "[Y]"]⟩ true
      [⟨5, ⟨none, true⟩, [⟨-2, [-1], "B"⟩, ⟨-1, [1], "A"⟩],
        ⟨#["a+", "aa"], #["[X]", "[Y]"]⟩⟩] :=
    ⟨List.forall_mem_singleton.2 hinto', List.forall_mem_singleton.2 rfl⟩
  have hrules : Resumes (E := .standard)
      [⟨0, ⟨some 1, true⟩, [⟨-1, [1], "A"⟩], ⟨#["a+"], #["[X]"]⟩⟩]
      [⟨5, ⟨none, true⟩, [⟨-2, [-1], "B"⟩, ⟨-1, [1], "A"⟩],
        ⟨#["a+", "aa"], #["[X]", "[Y]"]⟩⟩] := by
    intro g hg r hr
    rw [List.mem_singleton] at hg
    subst hg
    exact ⟨_, List.mem_singleton_self _, List.mem_cons_of_mem _ hr,
      fun limit h => by cases h⟩
  have hahead : ∀ a ∈ ([⟨0, 1, .zero, 7⟩, ⟨0, 1, .zero, 2⟩] : List Arc),
      a.tail < a.head ∧ a.head < 2 := by simp
  obtain ⟨l', hl', hnodes, hfrom⟩ :=
    Lattice.ofArcs_of_forall (by decide) hahead
  have harcs : l'.Covers (.ofSentence [2]) := by
    intro i a ha
    obtain ⟨-, hahead, hhead⟩ := Lattice.fits_arcsFrom ha
    have hcount : (Lattice.ofSentence [2]).nodeCount = 2 := rfl
    obtain rfl : i = 0 := by omega
    have ha : a ∈ [⟨0, 1, .zero, 2⟩] := ha
    rw [List.mem_singleton] at ha
    subst ha
    rw [hfrom]
    exact ⟨⟨0, 1, .zero, 2⟩, by simp [Lattice.arcsWithTail], rfl, rfl⟩
  obtain ⟨r, r', hparse, hparse', -, hgoal⟩ := parsing_is_monotone harcs hnodes
    hgrows' hloaded hloaded' hrules (-1)
  exact ⟨l', hl', hloaded, hloaded', r, r', hparse, hparse', hgoal⟩

end LatticeParsing
