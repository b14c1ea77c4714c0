/-
Labels that stand for themselves.

A label without signs of its own is, as a pattern, accepted by the word that
it spells and by no other. Where that is so for all terminal labels of some
grammars and all words on a lattice (`AcceptLiterally`), it makes no difference
whether labels are patterns. As no two terminals are spelled alike, a label
accepts the same symbols in either mode (`accepts_inMode_iff`), so the grammars
lead alike in both (`leadAlike_inMode`), and the parses go in step.
-/
import LatticeParsing.Proofs.Grammar.Loading
import LatticeParsing.Proofs.Parse.Lockstep
import LatticeParsing.Proofs.Parse.Realisations
import LatticeParsing.Proofs.Parse.Setup
import LatticeParsing.Proofs.Symbol.Calls

namespace LatticeParsing

variable {E : PatternEngine} {l : Lattice} {v : Vocabulary}
  {g : GrammarContents E} {gs : List (GrammarContents E)} {r : Rule}
  {s a : Symbol}

/-- Whether all labels of arcs that are no nonterminals have a spelling. -/
def Lattice.Spelled (l : Lattice) (v : Vocabulary) : Prop :=
  ∀ k, ∀ a ∈ l.arcsFrom k, 0 ≤ a.label → ∃ w, v.word? a.label = some w

namespace GrammarContents

-- =============================================================== modes

/-- The same contents where terminal labels are patterns, or are not. -/
def inMode (g : GrammarContents E) (labelPatterns : Bool) : GrammarContents E :=
  { g with options := { g.options with labelPatterns := labelPatterns } }

/-- Whether the pattern of each terminal label of a grammar accepts, of the
words on a lattice, just the one that the label spells. -/
def AcceptsLiterally (g : GrammarContents E) (l : Lattice) (v : Vocabulary) :
    Prop :=
  ∀ r ∈ g.rules, ∀ s ∈ r.source, 0 ≤ s → ∀ label, v.word? s = some label →
    ∀ k, ∀ a ∈ l.arcsFrom k, 0 ≤ a.label → ∀ w, v.word? a.label = some w →
      ((LabelPattern.ofLabel E label).accepts w = true ↔ label = w)

theorem root_inMode (g : GrammarContents E) (b : Bool) :
    (g.inMode b).grammar.root = g.grammar.root := by
  rw [root_grammar, root_grammar]
  rfl

theorem allows_inMode (g : GrammarContents E) (v : Vocabulary) (b : Bool) :
    ((g.inMode b).view v).allows = (g.view v).allows := by
  funext i j d
  show Grammar.allows _ i j d = Grammar.allows _ i j d
  unfold Grammar.allows
  rw [options_grammar, options_grammar]
  rfl

-- ============================================================ acceptance

/-- A label of a rule accepts what can be met on the lattice alike in both
modes. -/
theorem accepts_inMode_iff (hv : v.Distinct) (hinto : g.LoadedInto v)
    (hspelled : l.Spelled v) (hliteral : g.AcceptsLiterally l v)
    (hr : r ∈ g.rules) (hs : s ∈ r.source) (ha : l.Meets a) :
    (g.inMode true).Accepts v s a ↔ (g.inMode false).Accepts v s a := by
  by_cases hpos : 0 ≤ a
  · obtain ⟨k, arc, harc, rfl⟩ := ha hpos
    obtain ⟨w, hw⟩ := hspelled k arc harc hpos
    obtain ⟨label, hlabel, -⟩ :=
      hinto.isGrammarSymbol hr (List.mem_cons_of_mem _ hs)
    have hlabel' := hinto.finished.word? hlabel
    unfold Accepts
    rw [if_pos ⟨rfl, hpos⟩, if_neg fun h => Bool.false_ne_true h.1]
    constructor
    · rintro ⟨hs', label', w', hfirst, hsecond, haccepts⟩
      obtain rfl : label = label' := Option.some.inj (hlabel.symm.trans hfirst)
      obtain rfl : w = w' := Option.some.inj (hw.symm.trans hsecond)
      -- the label spells the word, and no other terminal does
      obtain rfl := (hliteral r hr s hs hs' label hlabel' k arc harc hpos w
        hw).1 haccepts
      exact hv.word?_inj hlabel' hw
        (iff_of_false (not_lt.2 hs') (not_lt.2 hpos))
    · rintro rfl
      obtain rfl : label = w := Option.some.inj (hlabel'.symm.trans hw)
      exact ⟨hpos, label, label, hlabel, hw,
        (hliteral r hr _ hs hpos label hw k arc harc hpos label hw).2 rfl⟩
  · rw [accepts_nonterminal (not_le.1 hpos),
      accepts_nonterminal (not_le.1 hpos)]

/-- The labels of the tree that a grammar is finished to are those of its
rules. -/
theorem exists_rule_of_label {path : List Symbol} {u : Trie}
    (hu : g.grammar.root.at? path = some u) (hs : s ∈ u.labels) :
    (g.grammar.root.at? (path ++ [s])).isSome
      ∧ ∃ r ∈ g.rules, s ∈ r.source := by
  obtain ⟨e, he, rfl⟩ := List.mem_map.1 hs
  have hend := Option.isSome_of_eq_some
    (g.ordered_root.at?_concat.2 ⟨u, hu, he⟩)
  refine ⟨hend, ?_⟩
  rcases g.isSome_at?_root.1 hend with hnil | ⟨q, hq, hprefix⟩
  · simp at hnil
  · exact ⟨q.rule, mem_rules_iff.2 ⟨q, hq, rfl⟩,
      hprefix.subset (List.mem_append_right _ (List.mem_singleton_self _))⟩

-- ========================================================= leading alike

/-- The positions that can be reached where labels accept themselves. -/
def Reached (g : GrammarContents E) (v : Vocabulary) (p : Position) : Prop :=
  ∃ symbols, ((g.inMode false).view v).walk? symbols = some p

/-- Where labels accept themselves, symbols lead to a single place, the one
behind them. -/
theorem not_isMerged_of_reached {p : Position} (h : g.Reached v p) :
    p.isMerged = false := by
  obtain ⟨symbols, hwalk⟩ := h
  have hreach := places_of_walk? hwalk
  have hpath : ∀ q ∈ p.places, q.path = symbols := by
    intro q hq
    obtain ⟨hat, hmatch⟩ := (hreach.mem q).1 hq
    rw [forall₂_accepts_matching (Option.isSome_of_eq_some hat)] at hmatch
    rw [← List.forall₂_eq_eq_eq]
    refine hmatch.imp fun s a hs => ?_
    unfold Accepts at hs
    rwa [if_neg fun h => Bool.false_ne_true h.1] at hs
  have hascending := List.pairwise_map.1 hreach.ascending
  unfold Position.isMerged
  cases hothers : p.others with
  | nil => rfl
  | cons q others =>
      have hplaces : p.places = p.first :: q :: others := by
        rw [← hothers]
        rfl
      rw [hplaces] at hascending hpath
      have hlt := (List.pairwise_cons.1 hascending).1 q
        (List.mem_cons_self ..)
      rw [hpath p.first (by simp), hpath q (by simp)] at hlt
      exact absurd hlt (List.lt_irrefl _)

/-- What can be met leads to the same positions in both modes. -/
theorem follow?_inMode_eq (hv : v.Distinct) (hinto : g.LoadedInto v)
    (hspelled : l.Spelled v) (hliteral : g.AcceptsLiterally l v)
    {p : Position} (hp : g.Reached v p) (ha : l.Meets a) :
    ((g.inMode true).view v).follow? p a
      = ((g.inMode false).view v).follow? p a := by
  obtain ⟨symbols, hwalk⟩ := hp
  have hreach := places_of_walk? hwalk
  refine congrArg Position.ofPlaces? (List.flatMap_congr fun q hq => ?_)
  have hat := ((hreach.mem q).1 hq).1
  rw [root_inMode] at hat
  refine List.filterMap_congr fun e he => ?_
  obtain ⟨s, u⟩ := e
  obtain ⟨hsome, r, hr, hs⟩ :=
    exists_rule_of_label hat (List.mem_map_of_mem he)
  have hlabels : s ∈ g.grammar.root.allLabels := by
    obtain ⟨w, hw⟩ := Option.isSome_iff_exists.1 hsome
    exact Trie.mem_allLabels hw s (by simp)
  have hsame : (g.inMode true).grammar.matching.accepts v s a
      = (g.inMode false).grammar.matching.accepts v s a := by
    rw [Bool.eq_iff_iff, accepts_matching (by rwa [root_inMode]),
      accepts_matching (by rwa [root_inMode])]
    exact accepts_inMode_iff hv hinto hspelled hliteral hr hs ha
  simp only [hsame]

/-- No rule with a single nonterminal applies to a terminal. -/
theorem unaryRules_eq_nil (hs : 0 ≤ s) : (g.view v).unaryRules s = [] := by
  unfold GrammarView.unaryRules
  cases hp : (g.view v).root?.bind ((g.view v).follow? · s) with
  | none => rfl
  | some p =>
      rw [← GrammarView.walk?_singleton] at hp
      refine List.filter_eq_nil_iff.2 fun q hq hunary => ?_
      obtain ⟨-, hsource⟩ := (mem_rules_of_walk? hp).1 hq
      obtain ⟨t, ht, hneg⟩ := Rule.isUnary_iff.1 hunary
      rw [ht, List.forall₂_cons] at hsource
      exact absurd hneg (not_lt.2 (hsource.1.nonneg hs))

/-- Grammars lead alike in both modes. -/
theorem leadAlike_inMode (hv : v.Distinct) (hinto : g.LoadedInto v)
    (hspelled : l.Spelled v) (hliteral : g.AcceptsLiterally l v) :
    ((g.inMode false).view v).LeadAlike l (g.Reached v)
      ((g.inMode true).view v) where
  root := by
    show some (Position.root _) = some (Position.root _)
    rw [root_inMode, root_inMode]
  allows := by rw [allows_inMode, allows_inMode]
  follow := fun p a hp ha => follow?_inMode_eq hv hinto hspelled hliteral hp ha
  on_follow := by
    rintro p a q ⟨symbols, hwalk⟩ hq
    refine ⟨symbols ++ [a], ?_⟩
    rw [GrammarView.walk?_concat, hwalk]
    exact hq
  unary := by
    intro a
    by_cases ha : 0 ≤ a
    · rw [unaryRules_eq_nil ha, unaryRules_eq_nil ha]
    · have hroot : g.Reached v (.root (g.inMode false).grammar.root) :=
        ⟨[], rfl⟩
      have hmeets : l.Meets a := fun hpos => absurd hpos ha
      have hsame := follow?_inMode_eq hv hinto hspelled hliteral hroot hmeets
      have hlead : ((g.inMode true).view v).root?.bind
            (((g.inMode true).view v).follow? · a)
          = ((g.inMode false).view v).root?.bind
            (((g.inMode false).view v).follow? · a) := by
        show ((g.inMode true).view v).follow?
          (.root (g.inMode true).grammar.root) a = _
        rw [root_inMode, ← g.root_inMode false, hsame]
        rfl
      unfold GrammarView.unaryRules
      rw [hlead]
  single := fun _ => not_isMerged_of_reached

end GrammarContents

-- =============================================================== parses

namespace Charting

/-- Parses in the two modes are in step when they begin. -/
theorem inStep_begin (hv : v.Distinct) (hloaded : ∀ g ∈ gs, g.LoadedInto v)
    (hspelled : l.Spelled v) (hliteral : ∀ g ∈ gs, g.AcceptsLiterally l v) :
    Parse.InStep l
      ((seeded l).toParse ((gs.map (·.inMode false)).map (·.view v)))
      ((seeded l).toParse ((gs.map (·.inMode true)).map (·.view v))) where
  forest := rfl
  charts := by
    unfold toParse
    simp only [List.map_map, List.forall₂_map_left_iff,
      List.forall₂_map_right_iff, List.forall₂_same]
    intro g hg
    have hchart : ∀ b, seededChart l ((g.inMode b).view v)
        = (ItemChart.empty l.nodeCount).addAll
            ((List.range l.nodeCount).map (seedItem g)) := by
      intro b
      unfold seededChart
      rw [seeded_view]
      unfold seedItem
      rw [g.root_inMode]
    refine ⟨(hchart true).trans (hchart false).symm, g.Reached v,
      g.leadAlike_inMode hv (hloaded g hg) hspelled (hliteral g hg), ?_⟩
    show (seededChart l ((g.inMode false).view v)).StandsOn _
    rw [hchart]
    refine ItemChart.StandsOn.addAll (fun i j x hx => ?_) fun x hx => ?_
    · rw [ItemChart.itemsAt_empty] at hx
      cases hx
    · obtain ⟨j, -, rfl⟩ := List.mem_map.1 hx
      exact ⟨[], congrArg (fun t => some (Position.root t))
        (g.root_inMode false)⟩

end Charting

/-- Where labels stand for themselves, patterns make no difference. Let
grammars be loaded into one vocabulary, which was fresh at the start, let the
words on a lattice be interned there, and let the pattern of each terminal
label accept, of these words, just the one that the label spells. Then the
parses in which terminal labels are patterns and in which they are not come to
the same: the forest with its constituents, derivations and costs, the goal,
all counts, and the items of every chart, in the same order. No item stands at
a merged position. -/
theorem literal_labels_parse_alike {l : Lattice} {gs : List (GrammarContents E)}
    {v : Vocabulary} (hv : ({} : Vocabulary).Grows v)
    (hloaded : ∀ g ∈ gs, g.LoadedInto v) (hspelled : l.Spelled v)
    (hliteral : ∀ g ∈ gs, g.AcceptsLiterally l v) (goal : Symbol) :
    ∃ r r', l.parse ((gs.map (·.inMode false)).map (·.view v)) goal = .ok r
      ∧ l.parse ((gs.map (·.inMode true)).map (·.view v)) goal = .ok r'
      ∧ r'.parse.forest = r.parse.forest
      ∧ r'.goal = r.goal
      ∧ r'.counts = r.counts
      ∧ r'.parse.charts.map (·.chart) = r.parse.charts.map (·.chart)
      ∧ ∀ c ∈ r'.parse.charts.map (·.chart), ∀ i j, ∀ x ∈ c.itemsAt i j,
          x.position.isMerged = false := by
  obtain ⟨start, hstart⟩ :=
    Charting.exists_begin l (gs.map (·.inMode false)) v
  obtain ⟨start', hstart'⟩ :=
    Charting.exists_begin l (gs.map (·.inMode true)) v
  have hbegin : Parse.InStep l start start' := by
    rw [Charting.begin_eq hstart, Charting.begin_eq hstart']
    exact Charting.inStep_begin (hv.distinct Vocabulary.distinct_empty) hloaded
      hspelled hliteral
  obtain ⟨hend, hpasses⟩ := hbegin.takeWidths (Parse.widths l)
  have hcharts := Parse.map_eq_of_inStep (·.chart) (·.chart) hend.charts
    fun c c' hc => hc.1
  have hseeded : ChartedGrammar.totalItems start'.charts
      = ChartedGrammar.totalItems start.charts :=
    congrArg (List.foldr (· + ·) 0) (Parse.map_eq_of_inStep _ _
      hbegin.charts fun c c' hc => by rw [hc.1])
  refine ⟨_, _, by rw [Lattice.parse, hstart]; rfl,
    by rw [Lattice.parse, hstart']; rfl, hend.forest, hend.goal?_eq goal, ?_,
    hcharts, ?_⟩
  · unfold ParseResult.counts Parse.result
    simp only [hpasses, hseeded]
  · show ∀ c ∈ List.map _ (Parse.takeWidths l _ start').1.charts, _
    rw [hcharts, List.forall_mem_map]
    exact fun c hc i j x hx => Parse.single_of_inStep hend.charts hc hx

/-- A label is met by the word that it spells and by a word that is spelled
like the left-hand side, of which the second was interned when the grammar had
been finished. -/
theorem literal_labels_parse_alike_two_words :
    ({} : Vocabulary).Grows ⟨#["a", "[X]"], #["[X]"]⟩
      ∧ (∀ g ∈ [GrammarContents.mk (E := .standard) 0 {} [⟨-1, [1], "A"⟩]
            ⟨#["a"], #["[X]"]⟩],
          g.LoadedInto ⟨#["a", "[X]"], #["[X]"]⟩
            ∧ g.AcceptsLiterally (.ofSentence [1, 2]) ⟨#["a", "[X]"], #["[X]"]⟩)
      ∧ (Lattice.ofSentence [1, 2]).Spelled ⟨#["a", "[X]"], #["[X]"]⟩
      ∧ ∃ r r', (Lattice.ofSentence [1, 2]).parse
            (([GrammarContents.mk (E := .standard) 0 {} [⟨-1, [1], "A"⟩]
                ⟨#["a"], #["[X]"]⟩].map
              (·.inMode false)).map (·.view ⟨#["a", "[X]"], #["[X]"]⟩)) (-1)
            = .ok r
        ∧ (Lattice.ofSentence [1, 2]).parse
            (([GrammarContents.mk (E := .standard) 0 {} [⟨-1, [1], "A"⟩]
                ⟨#["a"], #["[X]"]⟩].map
              (·.inMode true)).map (·.view ⟨#["a", "[X]"], #["[X]"]⟩)) (-1)
            = .ok r'
        ∧ r'.parse.forest = r.parse.forest := by
  have hread : Rule.ofText {} "[X] ||| a ||| A"
      = (⟨#["a"], #["[X]"]⟩, .ok [⟨-1, [1], "A"⟩]) := by decide +kernel
  have hword : (Vocabulary.internWord ⟨#["a"], #["[X]"]⟩ "[X]").1
      = ⟨#["a", "[X]"], #["[X]"]⟩ := by decide +kernel
  have hlater : (⟨#["a"], #["[X]"]⟩ : Vocabulary).Grows
      ⟨#["a", "[X]"], #["[X]"]⟩ := by
    rw [← hword]
    exact .internWord "[X]" .refl
  have hgrows := (Rule.grows_ofText hread).trans hlater
  have hloaded : ∀ g ∈ [GrammarContents.mk (E := .standard) 0 {}
      [⟨-1, [1], "A"⟩] ⟨#["a"], #["[X]"]⟩],
      g.LoadedInto ⟨#["a", "[X]"], #["[X]"]⟩ :=
    List.forall_mem_singleton.2
      ((GrammarContents.loadedInto_of_ofText hread 0 {}).grows hlater)
  have hwords : ∀ k, ∀ a ∈ (Lattice.ofSentence [1, 2]).arcsFrom k,
      ∃ w, Vocabulary.word? ⟨#["a", "[X]"], #["[X]"]⟩ a.label = some w
        ∧ ((LabelPattern.ofLabel .standard "a").accepts w = true
            ↔ "a" = w) := by
    intro k a ha
    obtain ⟨-, hahead, hhead⟩ := Lattice.fits_arcsFrom ha
    have hcount : (Lattice.ofSentence [1, 2]).nodeCount = 3 := rfl
    obtain rfl | rfl : k = 0 ∨ k = 1 := by omega
    · have ha : a ∈ [⟨0, 1, .zero, 1⟩] := ha
      rw [List.mem_singleton.1 ha]
      exact ⟨"a", rfl, by decide +kernel⟩
    · have ha : a ∈ [⟨1, 2, .zero, 2⟩] := ha
      rw [List.mem_singleton.1 ha]
      exact ⟨"[X]", rfl, by decide +kernel⟩
  have hspelled : (Lattice.ofSentence [1, 2]).Spelled
      ⟨#["a", "[X]"], #["[X]"]⟩ := fun k a ha _ =>
    (hwords k a ha).imp fun _ h => h.1
  have hliteral : ∀ g ∈ [GrammarContents.mk (E := .standard) 0 {}
      [⟨-1, [1], "A"⟩] ⟨#["a"], #["[X]"]⟩],
      g.AcceptsLiterally (.ofSentence [1, 2])
        ⟨#["a", "[X]"], #["[X]"]⟩ := by
    refine List.forall_mem_singleton.2 (List.forall_mem_singleton.2
      (List.forall_mem_singleton.2 ?_))
    intro _ label hlabel k a ha _ w hw
    obtain rfl : "a" = label := Option.some.inj hlabel
    obtain ⟨u, hu, hiff⟩ := hwords k a ha
    obtain rfl : u = w := Option.some.inj (hu.symm.trans hw)
    exact hiff
  obtain ⟨r, r', hparse, hparse', hforest, -⟩ :=
    literal_labels_parse_alike hgrows hloaded hspelled hliteral (-1)
  exact ⟨hgrows, fun g hg => ⟨hloaded g hg, hliteral g hg⟩, hspelled, r, r',
    hparse, hparse', hforest⟩

end LatticeParsing
