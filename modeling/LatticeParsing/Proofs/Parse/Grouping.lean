/-
Neither the order nor the grouping of rules matters.

What grammars offer is a collection of rules, each under a limit. Two lists of
grammars that offer the same, as often, may list it in other orders and divide
it in other ways (`Regroups`). Nothing that a parse finds depends on that.
The places of constituents are those that are derivable, which follow from
what is offered. And a constituent has one derivation for every offer of a
rule that covers its span and every list of antecedents by which the rule is
realised there (`count_named`). So the derivations with one rule and with
antecedents at given places are as many as the offers of the rule, or there
are none, in both parses alike.
-/
import LatticeParsing.Proofs.Parse.Counts
import LatticeParsing.Proofs.Parse.Monotonicity
import LatticeParsing.Proofs.Parse.Naming

namespace LatticeParsing

variable {E : PatternEngine} {l : Lattice} {gs gs' : List (GrammarContents E)}
  {g : GrammarContents E} {v : Vocabulary} {labelPatterns : Bool}
  {i j id : Nat} {r : Rule} {q : ListedRule}

-- =============================================================== offers

namespace GrammarContents

/-- The rules of several grammars with their limits, as often as they are
listed. -/
def offers (gs : List (GrammarContents E)) : List (Rule × Option Nat) :=
  gs.flatMap fun g => g.rules.map fun r => (r, g.options.spanLimit)

/-- Whether a limit allows a span. -/
def allowsSpan (l : Lattice) (i j : Nat) (limit : Option Nat) : Bool :=
  match l.distance i j with
  | none => false
  | some d => limit.all fun m => decide (d ≤ m)

theorem allowsSpan_iff :
    allowsSpan l i j g.options.spanLimit = true ↔ g.Covers l i j := by
  unfold allowsSpan Covers
  cases l.distance i j with
  | none => simp
  | some d => simp [Option.all_eq_true]

theorem mem_offers {limit : Option Nat} :
    (r, limit) ∈ offers gs
      ↔ ∃ g ∈ gs, r ∈ g.rules ∧ g.options.spanLimit = limit := by
  unfold offers
  simp only [List.mem_flatMap, List.mem_map, Prod.mk.injEq]
  constructor
  · intro h
    obtain ⟨g, hg, r, hr, rfl, hlimit⟩ := h
    exact ⟨g, hg, hr, hlimit⟩
  · intro h
    obtain ⟨g, hg, hr, hlimit⟩ := h
    exact ⟨g, hg, r, hr, rfl, hlimit⟩

theorem map_rule_listed (g : GrammarContents E) :
    g.listed.map ListedRule.rule = g.rules := by
  unfold listed
  exact List.ext_getElem (by simp) fun n _ _ => by simp

/-- The listings of a rule in grammars that cover a span. -/
def listings (l : Lattice) (gs : List (GrammarContents E)) (i j : Nat)
    (r : Rule) : List ListedRule :=
  ((gs.filter fun g => allowsSpan l i j g.options.spanLimit).flatMap
    listed).filter (·.rule = r)

theorem mem_listings :
    q ∈ listings l gs i j r
      ↔ q.rule = r ∧ ∃ g ∈ gs, g.Covers l i j ∧ q ∈ g.listed := by
  simp only [listings, List.mem_filter, List.mem_flatMap, decide_eq_true_eq,
    allowsSpan_iff]
  constructor
  · intro h
    obtain ⟨⟨g, ⟨hg, hcovers⟩, hq⟩, hr⟩ := h
    exact ⟨hr, g, hg, hcovers, hq⟩
  · intro h
    obtain ⟨hr, g, hg, hcovers, hq⟩ := h
    exact ⟨⟨g, ⟨hg, hcovers⟩, hq⟩, hr⟩

/-- Listings tell grammars and places apart. -/
theorem nodup_listings (hnumbers : (gs.map (·.number)).Nodup) :
    (listings l gs i j r).Nodup := by
  refine List.Nodup.filter _ (List.nodup_flatMap.2
    ⟨fun g _ => g.nodup_listed, ?_⟩)
  refine (List.pairwise_map.1 hnumbers).filter _ |>.imp ?_
  intro g g' hne q hq hq'
  exact hne ((number_of_mem_listed hq).symm.trans (number_of_mem_listed hq'))

/-- There are as many listings as offers that allow the span. -/
theorem length_listings (l : Lattice) (gs : List (GrammarContents E))
    (i j : Nat) (r : Rule) :
    (listings l gs i j r).length
      = (offers gs).countP fun o => o.1 = r ∧ allowsSpan l i j o.2 := by
  unfold listings offers
  rw [← List.countP_eq_length_filter]
  induction gs with
  | nil => rfl
  | cons g gs ih =>
      rw [List.flatMap_cons, List.countP_append, ← ih, ← map_rule_listed,
        List.map_map, List.countP_map, List.filter_cons]
      split
      case isTrue hspan =>
        rw [List.flatMap_cons, List.countP_append]
        congr 1
        exact List.countP_congr fun q _ => by simp [hspan]
      case isFalse hspan =>
        have hnone : g.listed.countP ((fun o : Rule × Option Nat =>
            decide (o.1 = r ∧ allowsSpan l i j o.2 = true))
              ∘ ((fun r => (r, g.options.spanLimit)) ∘ ListedRule.rule))
            = 0 := by
          rw [List.countP_eq_zero]
          intro q _
          simp [hspan]
        rw [hnone, Nat.zero_add]

end GrammarContents

open GrammarContents

-- =========================================================== acceptance

/-- The grammar without rules whose symbols accept what a vocabulary says
that they do. -/
def Vocabulary.bare (v : Vocabulary) (E : PatternEngine)
    (labelPatterns : Bool) : GrammarContents E :=
  ⟨0, { labelPatterns }, [], v⟩

/-- A rule of a loaded grammar is realised as the vocabulary says. -/
theorem Loaded.realises_iff {f : Forest} {ts : List Step}
    (h : Loaded v labelPatterns gs) (hg : g ∈ gs) (hr : r ∈ g.rules) :
    Realises l f g v j i r.source ts
      ↔ Realises l f (v.bare E labelPatterns) v j i r.source ts := by
  have haccepts : ∀ s ∈ r.source, ∀ a,
      g.Accepts v s a ↔ (v.bare E labelPatterns).Accepts v s a :=
    fun s hs a => h.accepts_iff hg hr hs
  exact ⟨fun hreal => hreal.of_accepts fun s hs a => (haccepts s hs a).1,
    fun hreal => hreal.of_accepts fun s hs a => (haccepts s hs a).2⟩

-- ========================================================== derivations

namespace Charting

variable {c : Constituent} {ts : List Step}

theorem apart_of_nodup (hnumbers : (gs.map (·.number)).Nodup) : Apart gs :=
  fun _ hg _ hg' hnumber =>
    List.inj_on_of_nodup_map hnumbers hg hg' hnumber

/-- A derivation of a constituent has a realisation by what the vocabulary
says. -/
theorem realises_bare (hloaded : Loaded v labelPatterns gs)
    (hc : (final l (gs.map (·.view v))).forest.constituents[id]? = some c)
    {d : Derivation} (hd : d ∈ c.derivations.toList) :
    d.rule.rule.lhs = c.lhs
      ∧ ∃ ts, Realises l (final l (gs.map (·.view v))).forest
            (v.bare E labelPatterns) v c.stop c.start d.rule.rule.source ts
          ∧ Trail.antecedents ts = d.antecedents := by
  obtain ⟨g, hg, hq, hlhs, -, ts, hreal, hants⟩ :=
    realises_of_mem_derivations hc hd
  have hr := mem_rules_iff.2 ⟨d.rule, hq, rfl⟩
  exact ⟨hlhs, ts, (hloaded.realises_iff hg hr).1 hreal, hants⟩

/-- A constituent has one derivation with the antecedents of a realisation
for every listing of the rule. -/
theorem perm_listings (hnumbers : (gs.map (·.number)).Nodup)
    (hloaded : Loaded v labelPatterns gs)
    (hc : (final l (gs.map (·.view v))).forest.constituents[id]? = some c)
    (hlhs : r.lhs = c.lhs)
    (hreal : Realises l (final l (gs.map (·.view v))).forest
      (v.bare E labelPatterns) v c.stop c.start r.source ts) :
    ((c.derivations.toList.filter fun d => d.rule.rule = r
        ∧ d.antecedents = Trail.antecedents ts).map Derivation.rule).Perm
      (listings l gs c.start c.stop r) := by
  obtain ⟨-, -, taken, -, hcollects⟩ := collects_final hc
  have hderivations := fun q A =>
    mem_derivations (r := q) (A := A) (apart_of_nodup hnumbers) hc
  -- derivations with the same rule and antecedents are recorded as one
  have hnodup : ((c.derivations.toList.filter fun d => d.rule.rule = r
      ∧ d.antecedents = Trail.antecedents ts).map Derivation.rule).Nodup := by
    refine List.Nodup.map_on (fun d hd d' hd' hrule => ?_)
      (hcollects.nodup.of_map.filter _)
    simp only [List.mem_filter, decide_eq_true_eq] at hd hd'
    refine List.inj_on_of_nodup_map hcollects.nodup hd.1 hd'.1 ?_
    unfold Derivation.key
    rw [hrule, hd.2.2, hd'.2.2]
  refine (List.perm_ext_iff_of_nodup hnodup (nodup_listings hnumbers)).2
    fun q => ?_
  simp only [List.mem_map, List.mem_filter, decide_eq_true_eq, mem_listings]
  constructor
  · intro h
    obtain ⟨d, ⟨hd, hrule, hants⟩, rfl⟩ := h
    obtain ⟨g, hg, hq, -, hcovers, -⟩ :=
      (hderivations _ _).1 ⟨d, hd, rfl, hants⟩
    exact ⟨hrule, g, hg, hcovers, hq⟩
  · intro h
    obtain ⟨rfl, g, hg, hcovers, hq⟩ := h
    have hreal := (hloaded.realises_iff hg
      (mem_rules_iff.2 ⟨q, hq, rfl⟩)).2 hreal
    obtain ⟨d, hd, rfl, hants⟩ := (hderivations q (Trail.antecedents ts)).2
      ⟨g, hg, hq, hlhs, hcovers, ts, hreal, rfl⟩
    exact ⟨d, ⟨hd, rfl, hants⟩, rfl⟩

/-- The derivations of a constituent by a rule, with antecedents at the
places of a realisation, are as many as the offers of the rule that allow the
span. -/
theorem count_named (hnumbers : (gs.map (·.number)).Nodup)
    (hloaded : Loaded v labelPatterns gs)
    (hc : (final l (gs.map (·.view v))).forest.constituents[id]? = some c)
    (hlhs : r.lhs = c.lhs)
    (hreal : Realises l (final l (gs.map (·.view v))).forest
      (v.bare E labelPatterns) v c.stop c.start r.source ts) :
    (c.derivations.toList.map
        (final l (gs.map (·.view v))).forest.named).count
      (r, (Trail.antecedents ts).map
        (final l (gs.map (·.view v))).forest.place?)
      = (offers gs).countP fun o =>
          o.1 = r ∧ allowsSpan l c.start c.stop o.2 := by
  have hsound := (fit_final l (gs.map (·.view v))).sound
  have hlength := (perm_listings hnumbers hloaded hc hlhs hreal).length_eq
  rw [List.length_map] at hlength
  -- the places of the antecedents leave no choice of the antecedents
  have hfilter : c.derivations.toList.filter ((· == (r,
        (Trail.antecedents ts).map
          (final l (gs.map (·.view v))).forest.place?))
        ∘ (final l (gs.map (·.view v))).forest.named)
      = c.derivations.toList.filter fun d =>
          d.rule.rule = r ∧ d.antecedents = Trail.antecedents ts := by
    refine List.filter_congr fun d _ => ?_
    rw [Function.comp_apply, Bool.eq_iff_iff, beq_iff_eq, decide_eq_true_eq]
    simp only [Forest.named, Prod.mk.injEq]
    refine and_congr_right fun _ => ⟨fun heq => ?_, fun heq => by rw [heq]⟩
    exact (hsound.map_place?_inj (hreal.antecedents_lt hsound) heq.symm).symm
  rw [List.count_eq_countP, List.countP_map, List.countP_eq_length_filter,
    hfilter, hlength, length_listings]

end Charting

-- ============================================================ regrouping

/-- Whether two lists of grammars offer the same. They have been loaded from
text into one vocabulary, with terminal labels that are patterns in all of
them or in none, and no list has a grammar twice. Every rule occurs as often
in the one as in the other under each limit. -/
structure Regroups (v : Vocabulary) (labelPatterns : Bool)
    (gs gs' : List (GrammarContents E)) : Prop where
  loaded : Loaded v labelPatterns gs
  loaded' : Loaded v labelPatterns gs'
  numbers : (gs.map (·.number)).Nodup
  numbers' : (gs'.map (·.number)).Nodup
  perm : (offers gs).Perm (offers gs')

namespace Regroups

theorem symm (h : Regroups v labelPatterns gs gs') :
    Regroups v labelPatterns gs' gs :=
  ⟨h.loaded', h.loaded, h.numbers', h.numbers, h.perm.symm⟩

/-- What is offered in one list is offered in the other. -/
theorem resumes (h : Regroups v labelPatterns gs gs') : Resumes gs gs' := by
  intro g hg r hr
  have hoffer := h.perm.mem_iff.1 (mem_offers.2 ⟨g, hg, hr, rfl⟩)
  obtain ⟨g', hg', hr', hlimit⟩ := mem_offers.1 hoffer
  refine ⟨g', hg', hr', fun limit hset => ?_⟩
  rw [hlimit] at hset
  exact ⟨limit, hset, Nat.le_refl limit⟩

end Regroups

namespace Charting

variable {c c' : Constituent} {id' : Nat}

/-- What one parse finds the other finds too. -/
theorem hasPlaces (h : Regroups v labelPatterns gs gs') :
    (final l (gs'.map (·.view v))).forest.HasPlaces
      (final l (gs.map (·.view v))).forest := by
  intro i j lhs id hid
  obtain ⟨c, hc, rfl, rfl, rfl⟩ := (fit_final l _).sound.listed.1 hid
  exact exists_constituent_of_resumes (.refl l) rfl .refl h.loaded h.loaded'
    h.resumes hc

/-- A derivation that one parse finds the other finds as often. -/
theorem count_eq_of_mem (h : Regroups v labelPatterns gs gs')
    (hc : (final l (gs.map (·.view v))).forest.constituents[id]? = some c)
    (hc' : (final l (gs'.map (·.view v))).forest.constituents[id']? = some c')
    (hplace : c'.place = c.place) {d : Derivation}
    (hd : d ∈ c.derivations.toList) :
    (c.derivations.toList.map
        (final l (gs.map (·.view v))).forest.named).count
        ((final l (gs.map (·.view v))).forest.named d)
      = (c'.derivations.toList.map
          (final l (gs'.map (·.view v))).forest.named).count
          ((final l (gs.map (·.view v))).forest.named d) := by
  have hsound := (fit_final l (gs.map (·.view v))).sound
  have hsound' := (fit_final l (gs'.map (·.view v))).sound
  simp only [Constituent.place, Prod.mk.injEq] at hplace
  obtain ⟨hlhs', hstart, hstop⟩ := hplace
  obtain ⟨hlhs, ts, hreal, hants⟩ := realises_bare h.loaded hc hd
  obtain ⟨ts', hreal', hants'⟩ := hreal.rename hsound hsound' (hasPlaces h)
  have hcount := count_named h.numbers h.loaded hc hlhs hreal
  rw [← hstart, ← hstop] at hreal'
  have hcount' := count_named h.numbers' h.loaded' hc' (hlhs.trans hlhs'.symm)
    hreal'
  unfold Forest.named at hcount hcount' ⊢
  rw [hants', hstart, hstop, ← h.perm.countP_eq, ← hcount, hants] at hcount'
  exact hcount'.symm

/-- Constituents at one place have the same derivations in both parses. -/
theorem perm_named (h : Regroups v labelPatterns gs gs')
    (hc : (final l (gs.map (·.view v))).forest.constituents[id]? = some c)
    (hc' : (final l (gs'.map (·.view v))).forest.constituents[id']? = some c')
    (hplace : c'.place = c.place) :
    (c.derivations.toList.map
        (final l (gs.map (·.view v))).forest.named).Perm
      (c'.derivations.toList.map
        (final l (gs'.map (·.view v))).forest.named) := by
  rw [List.perm_iff_count]
  intro e
  by_cases he : e ∈ c.derivations.toList.map
      (final l (gs.map (·.view v))).forest.named
  · obtain ⟨d, hd, rfl⟩ := List.mem_map.1 he
    exact count_eq_of_mem h hc hc' hplace hd
  · by_cases he' : e ∈ c'.derivations.toList.map
        (final l (gs'.map (·.view v))).forest.named
    · obtain ⟨d, hd, rfl⟩ := List.mem_map.1 he'
      exact (count_eq_of_mem h.symm hc' hc hplace.symm hd).symm
    · rw [List.count_eq_zero_of_not_mem he, List.count_eq_zero_of_not_mem he']

/-- A constituent of one parse has one at its place in the other, with as
many derivations. -/
theorem exists_same_place (h : Regroups v labelPatterns gs gs')
    (hc : (final l (gs.map (·.view v))).forest.constituents[id]? = some c) :
    ∃ (id' : Nat) (c' : Constituent),
      (final l (gs'.map (·.view v))).forest.constituents[id']? = some c'
        ∧ c'.place = c.place
        ∧ c'.derivations.size = c.derivations.size := by
  have hsound := (fit_final l (gs.map (·.view v))).sound
  obtain ⟨id', hid'⟩ := hasPlaces h _ _ _ _ (hsound.mem_of_constituent hc)
  obtain ⟨c', hc', hlhs, hstart, hstop⟩ := (fit_final l _).sound.listed.1 hid'
  have hplace : c'.place = c.place := by
    unfold Constituent.place
    rw [hlhs, hstart, hstop]
  have hlength := (perm_named h hc hc' hplace).length_eq
  rw [List.length_map, List.length_map] at hlength
  exact ⟨id', c', hc', hplace, hlength.symm⟩

theorem exists_place (h : Regroups v labelPatterns gs gs')
    {place : Symbol × Nat × Nat}
    (hex : ∃ c ∈ (final l (gs.map (·.view v))).forest.constituents,
      c.place = place) :
    ∃ c' ∈ (final l (gs'.map (·.view v))).forest.constituents,
      c'.place = place := by
  obtain ⟨c, hmem, rfl⟩ := hex
  obtain ⟨id, hc⟩ := Array.mem_iff_getElem?.1 hmem
  obtain ⟨id', c', hc', hplace, -⟩ := exists_same_place h hc
  exact ⟨c', Array.mem_of_getElem? hc', hplace⟩

/-- The places of constituents and the numbers of their derivations are the
same in both parses. -/
theorem perm_sizes (h : Regroups v labelPatterns gs gs') :
    (final l (gs.map (·.view v))).forest.sizes.Perm
      (final l (gs'.map (·.view v))).forest.sizes := by
  have hmem : ∀ {gs gs' : List (GrammarContents E)},
      Regroups v labelPatterns gs gs' → ∀ e,
      e ∈ (final l (gs.map (·.view v))).forest.sizes →
        e ∈ (final l (gs'.map (·.view v))).forest.sizes := by
    intro gs gs' h e he
    obtain ⟨id, c, hc, rfl⟩ := Forest.mem_sizes.1 he
    obtain ⟨id', c', hc', hplace, hsize⟩ := exists_same_place h hc
    exact Forest.mem_sizes.2 ⟨id', c', hc', by rw [hplace, hsize]⟩
  exact (List.perm_ext_iff_of_nodup (fit_final l _).sound.nodup_sizes
    (fit_final l _).sound.nodup_sizes).2 fun e => ⟨hmem h e, hmem h.symm e⟩

end Charting

/-- What is counted follows from places and numbers of derivations. -/
theorem Forest.counts_of_perm_sizes {f f' : Forest} (h : f.sizes.Perm f'.sizes)
    (p : Nat → Bool) :
    f.madeAt p = f'.madeAt p ∧ f.derivedAt p = f'.derivedAt p := by
  have hmade := (h.map fun e =>
    if p (e.1.2.2 - e.1.2.1) then 1 else 0).sum_nat
  have hderived := (h.map fun e =>
    if p (e.1.2.2 - e.1.2.1) then e.2 else 0).sum_nat
  unfold Forest.sizes at hmade hderived
  rw [List.map_map, List.map_map] at hmade hderived
  exact ⟨hmade, hderived⟩

/-- The result of a parse does not depend on how rules are ordered and
grouped. Let two lists of grammars offer the same rules, as often and under
the same limits (`Regroups`), and be used to parse one lattice. Both parses
come to an end. A left-hand side has a constituent over a span in one just if
it has in the other. With the places of constituents for their numbers, the
derivations of two constituents at one place are the same, each as often, as
far as rules and antecedents go. Passes of one width count as many
constituents and as many derivations, and the goal is reached in both or in
neither. -/
theorem grouping_does_not_matter {gs gs' : List (GrammarContents E)}
    {v : Vocabulary} {labelPatterns : Bool}
    (h : Regroups v labelPatterns gs gs') (l : Lattice) (goal : Symbol) :
    ∃ r r', l.parse (gs.map (·.view v)) goal = .ok r
      ∧ l.parse (gs'.map (·.view v)) goal = .ok r'
      ∧ (∀ place, (∃ c ∈ r.parse.forest.constituents, c.place = place)
          ↔ ∃ c' ∈ r'.parse.forest.constituents, c'.place = place)
      ∧ (∀ c ∈ r.parse.forest.constituents,
          ∀ c' ∈ r'.parse.forest.constituents, c'.place = c.place →
            (c.derivations.toList.map r.parse.forest.named).Perm
              (c'.derivations.toList.map r'.parse.forest.named))
      ∧ r.passes.map (fun n => (n.width, n.constituents, n.derivations))
        = r'.passes.map (fun n => (n.width, n.constituents, n.derivations))
      ∧ (r.goal.isSome ↔ r'.goal.isSome) := by
  obtain ⟨r, hparse, hstate, hgoal⟩ := Charting.exists_parse l gs v goal
  obtain ⟨r', hparse', hstate', hgoal'⟩ := Charting.exists_parse l gs' v goal
  have hpasses := Parse.passes_eq hparse
  have hpasses' := Parse.passes_eq hparse'
  have hforest : r.parse.forest
      = (Charting.final l (gs.map (·.view v))).forest := by rw [hstate]; rfl
  have hforest' : r'.parse.forest
      = (Charting.final l (gs'.map (·.view v))).forest := by rw [hstate']; rfl
  refine ⟨r, r', hparse, hparse', fun place => ⟨fun hex => ?_, fun hex => ?_⟩,
    fun c hmem c' hmem' hplace => ?_, ?_, ?_⟩
  · rw [hforest] at hex
    rw [hforest']
    exact Charting.exists_place h hex
  · rw [hforest'] at hex
    rw [hforest]
    exact Charting.exists_place h.symm hex
  · rw [hforest] at hmem ⊢
    rw [hforest'] at hmem' ⊢
    obtain ⟨id, hc⟩ := Array.mem_iff_getElem?.1 hmem
    obtain ⟨id', hc'⟩ := Array.mem_iff_getElem?.1 hmem'
    exact Charting.perm_named h hc hc' hplace
  · rw [hpasses, hpasses', hforest, hforest']
    refine List.map_congr_left fun w _ => ?_
    obtain ⟨hmade, hderived⟩ :=
      Forest.counts_of_perm_sizes (Charting.perm_sizes h) (· == w)
    rw [hmade, hderived]
  · rw [hgoal, hgoal', hstate, hstate', Charting.isSome_goal?_iff,
      Charting.isSome_goal?_iff]
    exact ⟨fun hgoal => hgoal.mono (.refl l) rfl .refl h.loaded h.loaded'
        h.resumes,
      fun hgoal => hgoal.mono (.refl l) rfl .refl h.loaded' h.loaded
        h.symm.resumes⟩

/-- Two rules of one grammar, and the same in two grammars that are listed
the other way round. -/
theorem grouping_does_not_matter_two_rules :
    Regroups (E := .standard) ⟨#["a", "b"], #["[X]", "[S]"]⟩ false
        [⟨0, {}, [⟨-1, [1], "A"⟩, ⟨-2, [-1, 2], "B"⟩],
          ⟨#["a", "b"], #["[X]", "[S]"]⟩⟩]
        [⟨4, {}, [⟨-2, [-1, 2], "B"⟩], ⟨#["a", "b"], #["[X]", "[S]"]⟩⟩,
          ⟨2, {}, [⟨-1, [1], "A"⟩], ⟨#["a", "b"], #["[X]", "[S]"]⟩⟩]
      ∧ ∃ r r', (Lattice.ofSentence [1, 2]).parse
            ([⟨0, {}, [⟨-1, [1], "A"⟩, ⟨-2, [-1, 2], "B"⟩],
                ⟨#["a", "b"], #["[X]", "[S]"]⟩⟩].map
              fun g : GrammarContents .standard =>
                g.view ⟨#["a", "b"], #["[X]", "[S]"]⟩) (-2) = .ok r
        ∧ (Lattice.ofSentence [1, 2]).parse
            ([⟨4, {}, [⟨-2, [-1, 2], "B"⟩], ⟨#["a", "b"], #["[X]", "[S]"]⟩⟩,
                ⟨2, {}, [⟨-1, [1], "A"⟩], ⟨#["a", "b"], #["[X]", "[S]"]⟩⟩].map
              fun g : GrammarContents .standard =>
                g.view ⟨#["a", "b"], #["[X]", "[S]"]⟩) (-2) = .ok r'
        ∧ (r.goal.isSome ↔ r'.goal.isSome) := by
  have hread : Rule.ofText {} "[X] ||| a ||| A\n[S] ||| [X] b ||| B"
      = (⟨#["a", "b"], #["[X]", "[S]"]⟩,
          .ok [⟨-1, [1], "A"⟩, ⟨-2, [-1, 2], "B"⟩]) := by decide +kernel
  have hlater : Rule.ofText ⟨#["a", "b"], #["[X]", "[S]"]⟩
        "[S] ||| [X] b ||| B"
      = (⟨#["a", "b"], #["[X]", "[S]"]⟩, .ok [⟨-2, [-1, 2], "B"⟩]) := by
    decide +kernel
  have hearlier : Rule.ofText ⟨#["a", "b"], #["[X]", "[S]"]⟩ "[X] ||| a ||| A"
      = (⟨#["a", "b"], #["[X]", "[S]"]⟩, .ok [⟨-1, [1], "A"⟩]) := by
    decide +kernel
  have hregroups : Regroups (E := .standard)
      ⟨#["a", "b"], #["[X]", "[S]"]⟩ false
      [⟨0, {}, [⟨-1, [1], "A"⟩, ⟨-2, [-1, 2], "B"⟩],
        ⟨#["a", "b"], #["[X]", "[S]"]⟩⟩]
      [⟨4, {}, [⟨-2, [-1, 2], "B"⟩], ⟨#["a", "b"], #["[X]", "[S]"]⟩⟩,
        ⟨2, {}, [⟨-1, [1], "A"⟩], ⟨#["a", "b"], #["[X]", "[S]"]⟩⟩] := {
    loaded := ⟨List.forall_mem_singleton.2 (loadedInto_of_ofText hread 0 {}),
      List.forall_mem_singleton.2 rfl⟩
    loaded' := ⟨List.forall_mem_cons.2 ⟨loadedInto_of_ofText hlater 4 {},
        List.forall_mem_singleton.2 (loadedInto_of_ofText hearlier 2 {})⟩,
      List.forall_mem_cons.2 ⟨rfl, List.forall_mem_singleton.2 rfl⟩⟩
    numbers := by decide
    numbers' := by decide
    perm := .swap .. }
  obtain ⟨r, r', hparse, hparse', -, -, -, hgoal⟩ :=
    grouping_does_not_matter hregroups (.ofSentence [1, 2]) (-2)
  exact ⟨hregroups, r, r', hparse, hparse', hgoal⟩

end LatticeParsing
