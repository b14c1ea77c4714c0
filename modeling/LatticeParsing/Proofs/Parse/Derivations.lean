/-
The derivations of constituents are the realisations of rules.

A constituent collects what is completed over its span for its left-hand
side (`collects_final`). So it has a derivation for every rule and list of
antecedents with a realisation, and no other. What remains is its cost: the
completions with the same rule and antecedents are, once for every time that
the grammar is listed, the realisations in the order of the items
(`costs_completed`).
-/
import LatticeParsing.Proofs.Parse.Realisations
import LatticeParsing.Report.Summary

namespace LatticeParsing

variable {E : PatternEngine}

-- ================================================================ lists

/-- A list in the place of every element with a property. -/
theorem flatMap_ite {α β : Type} (xs : List α) (p : α → Prop)
    [DecidablePred p] (ys : List β) :
    (xs.flatMap fun x => if p x then ys else [])
      = (List.replicate (xs.countP (p ·)) ys).flatten := by
  induction xs with
  | nil => rfl
  | cons x xs ih =>
      rw [List.flatMap_cons, ih, List.countP_cons]
      by_cases hx : p x
      · simp [hx, List.replicate_succ]
      · simp [hx]

/-- Only one element of a list gives anything. -/
theorem flatMap_eq_of_unique {α β : Type} {xs : List α} {a : α}
    {f : α → List β} (hnodup : xs.Nodup) (ha : a ∈ xs)
    (hf : ∀ x ∈ xs, x ≠ a → f x = []) : xs.flatMap f = f a := by
  obtain ⟨front, back, rfl⟩ := List.append_of_mem ha
  have hsplit := List.nodup_middle.1 hnodup
  have hnot := (List.nodup_cons.1 hsplit).1
  have hfront : front.flatMap f = [] := by
    refine List.flatMap_eq_nil_iff.2 fun x hx => hf x (by simp [hx]) ?_
    intro heq
    subst heq
    exact hnot (List.mem_append_left _ hx)
  have hback : back.flatMap f = [] := by
    refine List.flatMap_eq_nil_iff.2 fun x hx => hf x (by simp [hx]) ?_
    intro heq
    subst heq
    exact hnot (List.mem_append_right _ hx)
  rw [List.flatMap_append, List.flatMap_cons, hfront, hback]
  simp

-- ============================================================ identities

namespace GrammarContents

variable {g : GrammarContents E} {v : Vocabulary}
  {gs : List (GrammarContents E)}

/-- Grammars with the same number are the same. -/
def Apart (gs : List (GrammarContents E)) : Prop :=
  ∀ g ∈ gs, ∀ g' ∈ gs, g.number = g'.number → g = g'

/-- A rule of a grammar is told by its identity. -/
theorem rule_unique {r r' : ListedRule} (hr : r ∈ g.listed)
    (hr' : r' ∈ g.listed) (hid : r.id = r'.id) : r = r' :=
  List.inj_on_of_nodup_map g.nodup_ids hr hr' hid

/-- Where numbers tell grammars apart, identities tell rules apart. -/
theorem Apart.rule_unique (h : Apart gs) {g g' : GrammarContents E}
    (hg : g ∈ gs) (hg' : g' ∈ gs) {r r' : ListedRule} (hr : r ∈ g.listed)
    (hr' : r' ∈ g'.listed) (hid : r.id = r'.id) : g = g' ∧ r = r' := by
  have hnumber : g.number = g'.number := by
    rw [← number_of_mem_listed hr, ← number_of_mem_listed hr', hid]
  obtain rfl := h g hg g' hg' hnumber
  exact ⟨rfl, GrammarContents.rule_unique hr hr' hid⟩

/-- Among the rules at the end of a walk, those with the identity of a
rule. -/
theorem filter_id_rules {symbols : List Symbol} {p : Position}
    {r : ListedRule} (hr : r ∈ g.listed)
    (hp : (g.view v).walk? symbols = some p) [Decidable (r ∈ p.rules)] :
    p.rules.filter (fun r' => r'.id = r.id)
      = if r ∈ p.rules then [r] else [] := by
  have hsame : p.rules.filter (fun r' => r'.id = r.id)
      = p.rules.filter (· == r) := by
    refine List.filter_congr fun r' hr' => ?_
    have hlisted := ((mem_rules_of_walk? hp).1 hr').1
    rw [Bool.eq_iff_iff, decide_eq_true_eq, beq_iff_eq]
    constructor
    · exact fun hid => rule_unique hlisted hr hid
    · exact fun heq => heq ▸ rfl
  rw [hsame, List.filter_beq]
  split
  case isTrue hmem =>
    rw [(nodup_rules_of_walk? hp).count, if_pos hmem]
    rfl
  case isFalse hmem =>
    rw [List.count_eq_zero_of_not_mem hmem]
    rfl

end GrammarContents

namespace Charting

variable {l : Lattice} {gs : List (GrammarContents E)} {g : GrammarContents E}
  {v : Vocabulary} {i j : Nat} {r : ListedRule} {A : List Nat}
  {taken : List (Symbol × Nat)} {c : Constituent} {id : Nat}

-- ========================================================== collecting

/-- A constituent collects what is completed over its span for its left-hand
side. -/
theorem collects_final
    (hc : (final l (gs.map (·.view v))).forest.constituents[id]? = some c) :
    c.start < c.stop ∧ c.stop ≤ l.sourceLength
      ∧ ∃ taken, ((final l (gs.map (·.view v))).forest.cellAt
            c.start c.stop).Perm taken
          ∧ Collects (Forest.withLhs c.lhs
              (completed l (gs.map (·.view v)) c.start c.stop taken))
            c.derivations.toList := by
  have hsound := (fit_final l (gs.map (·.view v))).sound
  have hmem := hsound.mem_of_constituent hc
  obtain ⟨hspan, hbound⟩ := inside_final l _ _ _ _ hmem
  obtain ⟨taken, hperm, hentry⟩ := entry?_final (roomy gs v) hspan hbound
  refine ⟨hspan, hbound, taken, hperm, ?_⟩
  obtain ⟨id, hgather⟩ := hentry c.lhs
  rw [hsound.entry?_of_mem hmem, hc] at hgather
  exact Forest.collects_of_gather hgather

/-- A left-hand side has a constituent over a span if a rule with it is
realised there. -/
theorem exists_constituent_iff (hij : i < j) (hj : j ≤ l.sourceLength)
    {lhs : Symbol} :
    (∃ id, (lhs, id) ∈ (final l (gs.map (·.view v))).forest.cellAt i j)
      ↔ ∃ g ∈ gs, g.Covers l i j ∧ ∃ r ∈ g.listed, r.rule.lhs = lhs ∧ ∃ ts,
          Realises l (final l (gs.map (·.view v))).forest g v j i
            r.rule.source ts := by
  have hsound := (fit_final l (gs.map (·.view v))).sound
  obtain ⟨taken, hperm, hentry⟩ := entry?_final (roomy gs v) hij hj
  obtain ⟨id, hid⟩ := hentry lhs
  have hnone : (¬ ∃ id, (lhs, id)
        ∈ (final l (gs.map (·.view v))).forest.cellAt i j)
      ↔ Forest.withLhs lhs (completed l (gs.map (·.view v)) i j taken)
          = [] := by
    rw [← hsound.entry?_eq_none, hid, Forest.gather_eq_none]
  constructor
  · intro hlisted
    obtain ⟨d, hd⟩ := List.exists_mem_of_ne_nil _ fun h => hnone.2 h hlisted
    obtain ⟨hd, hlhs⟩ := Forest.mem_withLhs.1 hd
    obtain ⟨g, hg, hcovers, r, hr, ts, hreal, rfl⟩ :=
      (mem_completed hij hj hperm).1 hd
    exact ⟨g, hg, hcovers, r, hr, hlhs, ts, hreal⟩
  · intro h'
    obtain ⟨g, hg, hcovers, r, hr, hlhs, ts, hreal⟩ := h'
    have hd := (mem_completed hij hj hperm).2
      ⟨g, hg, hcovers, r, hr, ts, hreal, rfl⟩
    by_contra hno
    have hmem := Forest.mem_withLhs.2 ⟨hd, hlhs⟩
    rw [hnone.1 hno] at hmem
    cases hmem

/-- Every derivation of a constituent has a realisation. -/
theorem realises_of_mem_derivations
    (hc : (final l (gs.map (·.view v))).forest.constituents[id]? = some c)
    {d : Derivation} (hd : d ∈ c.derivations.toList) :
    ∃ g ∈ gs, d.rule ∈ g.listed ∧ d.rule.rule.lhs = c.lhs
      ∧ g.Covers l c.start c.stop
      ∧ ∃ ts, Realises l (final l (gs.map (·.view v))).forest g v
            c.stop c.start d.rule.rule.source ts
          ∧ Trail.antecedents ts = d.antecedents := by
  obtain ⟨hspan, hbound, taken, hperm, hcollects⟩ := collects_final hc
  obtain ⟨d', hd', hkey, hrule⟩ := hcollects.rule d hd
  obtain ⟨hd', hlhs⟩ := Forest.mem_withLhs.1 hd'
  obtain ⟨g, hg, hcovers, r, hr, ts, hreal, rfl⟩ :=
    (mem_completed hspan hbound hperm).1 hd'
  have hants : Trail.antecedents ts = d.antecedents := congrArg Prod.snd hkey
  have hrule : r = d.rule := hrule
  subst hrule
  exact ⟨g, hg, hr, hlhs, hcovers, ts, hreal, hants⟩

/-- The derivations of a constituent are the rules and antecedents with a
realisation. -/
theorem mem_derivations (hapart : GrammarContents.Apart gs)
    (hc : (final l (gs.map (·.view v))).forest.constituents[id]? = some c) :
    (∃ d ∈ c.derivations.toList, d.rule = r ∧ d.antecedents = A)
      ↔ ∃ g ∈ gs, r ∈ g.listed ∧ r.rule.lhs = c.lhs
          ∧ g.Covers l c.start c.stop
          ∧ ∃ ts, Realises l (final l (gs.map (·.view v))).forest g v
                c.stop c.start r.rule.source ts
              ∧ Trail.antecedents ts = A := by
  constructor
  · intro h
    obtain ⟨d, hd, rfl, rfl⟩ := h
    exact realises_of_mem_derivations hc hd
  · obtain ⟨hspan, hbound, taken, hperm, hcollects⟩ := collects_final hc
    intro h
    obtain ⟨g, hg, hr, hlhs, hcovers, ts, hreal, rfl⟩ := h
    have hd := (mem_completed hspan hbound hperm).2
      ⟨g, hg, hcovers, r, hr, ts, hreal, rfl⟩
    have hkey := (hcollects.mem_keys _).2
      (List.mem_map_of_mem (Forest.mem_withLhs.2 ⟨hd, hlhs⟩))
    obtain ⟨e, he, hekey⟩ := List.mem_map.1 hkey
    obtain ⟨g', hg', hr', -⟩ := realises_of_mem_derivations hc he
    have hid : e.rule.id = r.id := congrArg Prod.fst hekey
    exact ⟨e, he, (hapart.rule_unique hg' hg hr' hr hid).2,
      congrArg Prod.snd hekey⟩

-- ================================================================ costs

/-- The grammars that allow rules over a span. -/
def covering (l : Lattice) (gs : List (GrammarContents E)) (v : Vocabulary)
    (i j : Nat) : List (GrammarContents E) :=
  match l.distance i j with
  | none => []
  | some d => gs.filter fun g => (g.view v).allows i j d

theorem allowed_map (l : Lattice) (gs : List (GrammarContents E))
    (v : Vocabulary) (i j : Nat) :
    allowed l (gs.map (·.view v)) i j
      = (covering l gs v i j).map (·.view v) := by
  unfold allowed covering
  cases l.distance i j with
  | none => rfl
  | some d =>
      show List.filter _ (List.map _ gs) = List.map _ (List.filter _ gs)
      rw [List.filter_map]
      rfl

theorem mem_of_mem_covering (hg : g ∈ covering l gs v i j) : g ∈ gs := by
  unfold covering at hg
  split at hg
  · cases hg
  · exact (List.mem_filter.1 hg).1

/-- A grammar that covers the span is there as often as it is listed. -/
theorem countP_covering (hapart : GrammarContents.Apart gs) (hg : g ∈ gs)
    (hij : i ≠ j) (hcovers : g.Covers l i j) :
    (covering l gs v i j).countP (·.number = g.number)
      = gs.countP (·.number = g.number) := by
  obtain ⟨d, hd, hlimit⟩ := hcovers
  unfold covering
  rw [hd]
  show (gs.filter _).countP _ = _
  rw [List.countP_filter]
  refine List.countP_congr fun g' hg' => ?_
  rw [Bool.and_eq_true, decide_eq_true_eq, and_iff_left_iff_imp]
  intro hnumber
  rw [hapart g' hg' g hg hnumber]
  exact (GrammarContents.allows_iff hij).2 hlimit

/-- The rules that end at an item. -/
def endingAt (x : Item) : List Derivation :=
  x.position.rules.map fun r => ⟨r, x.antecedents, x.path.cost⟩

/-- Of the rules that end at the item of a trail, the cost of one with given
antecedents. -/
theorem costs_endingAt {ts : List Step} {x : Item} {f : Forest}
    (hr : r ∈ g.listed) (hx : Carries (g.view v) i j ts x)
    (htrail : Trail l f i ts j)
    [Decidable (Realises l f g v j i r.rule.source ts
      ∧ Trail.antecedents ts = A)] :
    ((endingAt x).filter (·.key = (r.id, A))).map (·.cost)
      = if Realises l f g v j i r.rule.source ts ∧ Trail.antecedents ts = A
        then [Trail.cost ts] else [] := by
  have hrules := mem_rules_of_carries (r := r) hx htrail
  have hids := GrammarContents.filter_id_rules hr hx.position
  obtain ⟨p, -, rfl⟩ := hx
  unfold endingAt
  rw [List.filter_map]
  by_cases hants : Trail.antecedents ts = A
  · have hkey : p.rules.filter
          ((fun d : Derivation => decide (d.key = (r.id, A)))
            ∘ fun r => ⟨r, Trail.antecedents ts, (Trail.path ts).cost⟩)
        = p.rules.filter (fun r' => r'.id = r.id) := by
      refine List.filter_congr fun r' _ => ?_
      simp [Derivation.key, hants]
    rw [hkey, hids]
    by_cases hreal : Realises l f g v j i r.rule.source ts
    · rw [if_pos (hrules.2 ⟨hr, hreal⟩), if_pos ⟨hreal, hants⟩]
      rfl
    · rw [if_neg fun h => hreal (hrules.1 h).2, if_neg fun h => hreal h.1]
      rfl
  · rw [if_neg fun h => hants h.2, List.map_eq_nil_iff, List.map_eq_nil_iff,
      List.filter_eq_nil_iff]
    intro r' _ hkey
    rw [Function.comp_apply, decide_eq_true_eq] at hkey
    exact hants (congrArg Prod.snd hkey)

/-- Rules of a grammar with another number have other keys. -/
theorem filter_key_of_number {g' : GrammarContents E} {ds : List Derivation}
    (hr : r ∈ g.listed) (hne : g'.number ≠ g.number)
    (hds : ∀ d ∈ ds, d.rule ∈ g'.listed) :
    ds.filter (·.key = (r.id, A)) = [] := by
  rw [List.filter_eq_nil_iff]
  intro d hd hkey
  rw [decide_eq_true_eq] at hkey
  have hid : d.rule.id = r.id := congrArg Prod.fst hkey
  rw [← GrammarContents.number_of_mem_listed (hds d hd),
    ← GrammarContents.number_of_mem_listed hr, hid] at hne
  exact hne rfl

/-- What a function of grammars makes of all that cover a span, where it
passes over other grammars than that of a rule. -/
theorem flatMap_covering (hapart : GrammarContents.Apart gs) (hg : g ∈ gs)
    (hr : r ∈ g.listed) (hij : i ≠ j) (hcovers : g.Covers l i j)
    {h : GrammarContents E → List Derivation} {costs : List Cost}
    (hcosts : ((h g).filter (·.key = (r.id, A))).map (·.cost) = costs)
    (hrules : ∀ g' ∈ gs, ∀ d ∈ h g', d.rule ∈ g'.listed) :
    (((covering l gs v i j).flatMap h).filter (·.key = (r.id, A))).map (·.cost)
      = (List.replicate (gs.countP (·.number = g.number)) costs).flatten := by
  rw [List.filter_flatMap, List.map_flatMap,
    ← countP_covering (v := v) hapart hg hij hcovers, ← flatMap_ite]
  refine List.flatMap_congr fun g' hg' => ?_
  have hlisted := mem_of_mem_covering hg'
  by_cases hnumber : g'.number = g.number
  · rw [if_pos hnumber, hapart g' hlisted g hg hnumber, hcosts]
  -- rules tell their grammar by its number
  · rw [if_neg hnumber, filter_key_of_number hr hnumber (hrules g' hlisted)]
    rfl

/-- The rules with a single nonterminal of a grammar that apply to a
constituent. -/
def unaryOf (g : GrammarContents E) (v : Vocabulary) (e : Symbol × Nat) :
    List Derivation :=
  match (g.view v).walk? [e.1] with
  | none => []
  | some p => (p.rules.filter (·.rule.isUnary)).map fun r => ⟨r, [e.2], .zero⟩

theorem completionsAt_eq (l : Lattice) (gs : List (GrammarContents E))
    (v : Vocabulary) (i j : Nat) (items : GrammarView → List Item) :
    completionsAt l (gs.map (·.view v)) i j items
      = (covering l gs v i j).flatMap fun g =>
          (items (g.view v)).flatMap endingAt := by
  unfold completionsAt
  rw [allowed_map, List.flatMap_map]
  rfl

theorem unaryAt_eq (l : Lattice) (gs : List (GrammarContents E))
    (v : Vocabulary) (i j : Nat) (es : List (Symbol × Nat)) :
    unaryAt l (gs.map (·.view v)) i j es
      = es.flatMap fun e =>
          (covering l gs v i j).flatMap fun g => unaryOf g v e := by
  unfold unaryAt
  rw [allowed_map]
  refine List.flatMap_congr fun e _ => (List.flatMap_map ..).trans ?_
  refine List.flatMap_congr fun g _ => ?_
  unfold unaryOf
  exact GrammarView.walk?_singleton (g.view v) e.1 ▸ rfl

theorem mem_unaryOf {e : Symbol × Nat} {d : Derivation}
    (hd : d ∈ unaryOf g v e) : d.rule ∈ g.listed ∧ d.antecedents = [e.2] := by
  unfold unaryOf at hd
  split at hd
  case h_1 => cases hd
  case h_2 p hp =>
    obtain ⟨r, hr, rfl⟩ := List.mem_map.1 hd
    have hrule := (List.mem_filter.1 hr).1
    exact ⟨((GrammarContents.mem_rules_of_walk? hp).1 hrule).1, rfl⟩

theorem costs_unaryOf {s : Symbol} (hr : r ∈ g.listed) (hs : s < 0)
    (hsource : r.rule.source = [s]) (id : Nat) :
    ((unaryOf g v (s, id)).filter (·.key = (r.id, [id]))).map (·.cost)
      = [.zero] := by
  obtain ⟨p, hp, hmem⟩ := GrammarContents.exists_walk?_unary (v := v) hr hs
    hsource
  have hkey : (p.rules.filter (·.rule.isUnary)).filter
        ((fun d : Derivation => decide (d.key = (r.id, [id])))
          ∘ fun r => ⟨r, [id], .zero⟩)
      = (p.rules.filter fun r' => r'.id = r.id).filter (·.rule.isUnary) := by
    rw [List.filter_filter, List.filter_filter]
    refine List.filter_congr fun r' _ => ?_
    simp [Derivation.key, Bool.and_comm]
  unfold unaryOf
  simp only [hp]
  rw [List.filter_map, hkey, GrammarContents.filter_id_rules hr hp, if_pos hmem,
    List.filter_singleton, Rule.isUnary_iff.2 ⟨s, hsource, hs⟩]
  rfl

-- =========================================================== completions

/-- Rules with a single nonterminal are not completed by items. -/
theorem filter_key_completionsAt (hapart : GrammarContents.Apart gs)
    (hg : g ∈ gs) (hr : r ∈ g.listed) (hunary : r.rule.isUnary = true)
    (hij : i < j) (hj : j ≤ l.sourceLength) :
    (completionsAt l (gs.map (·.view v)) i j
        (arrivals l (final l (gs.map (·.view v))) i j)).filter
      (·.key = (r.id, A)) = [] := by
  rw [List.filter_eq_nil_iff]
  intro d hd hkey
  rw [decide_eq_true_eq] at hkey
  obtain ⟨g', hg', -, x, hx, r', hr', rfl⟩ :=
    (mem_completionsAt (Nat.ne_of_lt hij)).1 hd
  obtain ⟨ts, harrives, hcarries⟩ :=
    (enumerates_arrivals _ _ _ hij hj).exists_of_mem hx
  obtain ⟨hlisted, hreal⟩ := (mem_rules_of_carries hcarries harrives.1).1 hr'
  have hid : r'.id = r.id := congrArg Prod.fst hkey
  obtain ⟨-, rfl⟩ := hapart.rule_unique hg' hg hlisted hr hid
  rw [not_isUnary_of_arrives harrives hreal] at hunary
  cases hunary

/-- All other rules are not recorded by the closure. -/
theorem filter_key_unaryAt (hapart : GrammarContents.Apart gs)
    (hg : g ∈ gs) (hr : r ∈ g.listed) (hunary : r.rule.isUnary = false)
    (hij : i ≠ j) :
    (unaryAt l (gs.map (·.view v)) i j taken).filter (·.key = (r.id, A))
      = [] := by
  rw [List.filter_eq_nil_iff]
  intro d hd hkey
  rw [decide_eq_true_eq] at hkey
  obtain ⟨g', hg', -, r', hr', s, id, -, hs, hsource, rfl⟩ :=
    (mem_unaryAt hij).1 hd
  have hid : r'.id = r.id := congrArg Prod.fst hkey
  obtain ⟨-, rfl⟩ := hapart.rule_unique hg' hg hr' hr hid
  rw [Rule.isUnary_iff.2 ⟨s, hsource, hs⟩] at hunary
  cases hunary

/-- The costs at which a rule is recorded with given antecedents: those of
its realisations in the order of their items, once for every time that the
grammar is listed. -/
theorem costs_completed (A : List Nat) (taken : List (Symbol × Nat))
    (hapart : GrammarContents.Apart gs) (hg : g ∈ gs) (hr : r ∈ g.listed)
    (hunary : r.rule.isUnary = false) (hij : i < j)
    (hj : j ≤ l.sourceLength) (hcovers : g.Covers l i j) :
    ∃ reals : List (List Step), reals.Nodup
      ∧ (∀ ts, ts ∈ reals
          ↔ Realises l (final l (gs.map (·.view v))).forest g v j i
              r.rule.source ts ∧ Trail.antecedents ts = A)
      ∧ (∃ xs, xs.Sublist
            (((final l (gs.map (·.view v))).chart (g.view v)).itemsAt i j)
          ∧ List.Forall₂ (Carries (g.view v) i j) reals xs)
      ∧ ((completed l (gs.map (·.view v)) i j taken).filter
            (·.key = (r.id, A))).map (·.cost)
          = (List.replicate (gs.countP (·.number = g.number))
              (reals.map Trail.cost)).flatten := by
  classical
  have harrivals := enumerates_arrivals (gs.map (·.view v)) g v hij hj
  obtain ⟨reals, hnodup, hmem, ⟨xs, hsub, hxs⟩, hcosts⟩ := harrivals.select
    (Q := fun ts => Realises l (final l (gs.map (·.view v))).forest g v j i
      r.rule.source ts ∧ Trail.antecedents ts = A)
    (k := Trail.cost)
    (f := fun x => ((endingAt x).filter (·.key = (r.id, A))).map (·.cost))
    fun ts x harrives hx => costs_endingAt hr hx harrives.1
  refine ⟨reals, hnodup, fun ts => ?_, ⟨xs, ?_, hxs⟩, ?_⟩
  · rw [hmem]
    exact and_iff_right_of_imp fun h => arrives_of_realises hr hunary h.1
  · rw [itemsAt_final hij hj]
    exact hsub.trans (List.sublist_append_left ..)
  · unfold completed
    rw [List.filter_append,
      filter_key_unaryAt hapart hg hr hunary (Nat.ne_of_lt hij),
      List.append_nil, completionsAt_eq]
    refine flatMap_covering hapart hg hr (Nat.ne_of_lt hij) hcovers ?_ ?_
    · rw [List.filter_flatMap, List.map_flatMap]
      exact hcosts
    · intro g' _ d hd
      obtain ⟨x, hx, hd⟩ := List.mem_flatMap.1 hd
      obtain ⟨r', hr', rfl⟩ := List.mem_map.1 hd
      obtain ⟨ts, harrives, hcarries⟩ :=
        (enumerates_arrivals _ _ _ hij hj).exists_of_mem hx
      exact ((mem_rules_of_carries hcarries harrives.1).1 hr').1

/-- The costs at which a rule with a single nonterminal is recorded. -/
theorem costs_completed_unary (hapart : GrammarContents.Apart gs)
    (hg : g ∈ gs) (hr : r ∈ g.listed) {s : Symbol} (hs : s < 0)
    (hsource : r.rule.source = [s]) (hij : i < j) (hj : j ≤ l.sourceLength)
    (hcovers : g.Covers l i j)
    (hperm : ((final l (gs.map (·.view v))).forest.cellAt i j).Perm taken)
    (hmem : (s, id) ∈ (final l (gs.map (·.view v))).forest.cellAt i j) :
    ((completed l (gs.map (·.view v)) i j taken).filter
        (·.key = (r.id, [id]))).map (·.cost)
      = (List.replicate (gs.countP (·.number = g.number)) [.zero]).flatten := by
  have hsound := (fit_final l (gs.map (·.view v))).sound
  have hunary := Rule.isUnary_iff.2 ⟨s, hsource, hs⟩
  have hnodup := hperm.nodup_iff.1 (nodup_cellAt_final l _ i j)
  unfold completed
  rw [List.filter_append, filter_key_completionsAt hapart hg hr hunary hij hj,
    List.nil_append, unaryAt_eq, List.filter_flatMap,
    flatMap_eq_of_unique hnodup (hperm.mem_iff.1 hmem)]
  · exact flatMap_covering hapart hg hr (Nat.ne_of_lt hij) hcovers
      (costs_unaryOf hr hs hsource id) fun g' _ d hd => (mem_unaryOf hd).1
  · intro e he hne
    obtain ⟨s', id'⟩ := e
    rw [List.filter_eq_nil_iff]
    intro d hd hkey
    rw [decide_eq_true_eq] at hkey
    obtain ⟨g', -, hd⟩ := List.mem_flatMap.1 hd
    have hants : d.antecedents = [id] := congrArg Prod.snd hkey
    rw [(mem_unaryOf hd).2] at hants
    have hid : id' = id := (List.cons.inj hants).1
    subst hid
    have hlhs := (hsound.span_eq (hperm.mem_iff.2 he) hmem).1
    exact hne (by rw [hlhs])

/-- All that is completed with the key of a rule has its left-hand side. -/
theorem filter_key_withLhs (hapart : GrammarContents.Apart gs) (hg : g ∈ gs)
    (hr : r ∈ g.listed) (hij : i < j) (hj : j ≤ l.sourceLength)
    (hperm : ((final l (gs.map (·.view v))).forest.cellAt i j).Perm taken) :
    (Forest.withLhs r.rule.lhs
        (completed l (gs.map (·.view v)) i j taken)).filter
        (·.key = (r.id, A))
      = (completed l (gs.map (·.view v)) i j taken).filter
          (·.key = (r.id, A)) := by
  unfold Forest.withLhs
  rw [List.filter_filter]
  refine List.filter_congr fun d hd => ?_
  rw [Bool.and_eq_left_iff_imp, decide_eq_true_eq, decide_eq_true_eq]
  intro hkey
  obtain ⟨g', hg', -, r', hr', ts, -, rfl⟩ := (mem_completed hij hj hperm).1 hd
  have hid : r'.id = r.id := congrArg Prod.fst hkey
  rw [(hapart.rule_unique hg' hg hr' hr hid).2]

/-- The realisations by which a derivation of a constituent is found, in the
order of their items. A rule with a single nonterminal has only one, and
needs no item. -/
structure FoundBy (l : Lattice) (f : Forest) (chart : ItemChart)
    (g : GrammarContents E) (v : Vocabulary) (c : Constituent) (d : Derivation)
    (reals : List (List Step)) : Prop where
  nodup : reals.Nodup
  mem : ∀ ts, ts ∈ reals
    ↔ Realises l f g v c.stop c.start d.rule.rule.source ts
      ∧ Trail.antecedents ts = d.antecedents
  items : d.rule.rule.isUnary = false →
    ∃ xs, xs.Sublist (chart.itemsAt c.start c.stop)
      ∧ List.Forall₂ (Carries (g.view v) c.start c.stop) reals xs

/-- A rule with a single nonterminal finds a derivation by the constituent that
the rule is applied to. -/
theorem foundBy_unary {f : Forest} {chart : ItemChart} {d : Derivation}
    {s : Symbol} {k : Nat} (hunary : d.rule.rule.isUnary = true)
    (hsource : d.rule.rule.source = [s]) (hs : s < 0)
    (hk : (s, k) ∈ f.cellAt c.start c.stop) (hants : d.antecedents = [k]) :
    FoundBy l f chart g v c d [[.constituent c.stop s k]] where
  nodup := List.nodup_singleton _
  mem := by
    intro ts
    rw [List.mem_singleton, hsource, realises_unary hs, hants]
    constructor
    · intro heq
      subst heq
      exact ⟨⟨k, hk, rfl⟩, rfl⟩
    · intro h
      obtain ⟨⟨m, hm, rfl⟩, hants'⟩ := h
      have hid : m = k := (List.cons.inj hants').1
      rw [hid]
  items := by
    intro h
    rw [hunary] at h
    cases h

/-- The cost of a derivation. -/
theorem exists_foundBy (hapart : GrammarContents.Apart gs) (hg : g ∈ gs)
    (hc : (final l (gs.map (·.view v))).forest.constituents[id]? = some c)
    {d : Derivation} (hd : d ∈ c.derivations.toList)
    (hr : d.rule ∈ g.listed) :
    ∃ reals, FoundBy l (final l (gs.map (·.view v))).forest
        ((final l (gs.map (·.view v))).chart (g.view v)) g v c d reals
      ∧ Cost.leastOf (List.replicate (gs.countP (·.number = g.number))
          (reals.map Trail.cost)).flatten = some d.cost := by
  obtain ⟨hspan, hbound, taken, hperm, hcollects⟩ := collects_final hc
  obtain ⟨g', hg', hr', hlhs, hcovers, ts, hreal, hants⟩ :=
    (mem_derivations hapart hc).1 ⟨d, hd, rfl, rfl⟩
  obtain ⟨rfl, -⟩ := hapart.rule_unique hg' hg hr' hr rfl
  have hcost := hcollects.cost d hd
  rw [← hlhs] at hcost
  have hkey := filter_key_withLhs (A := d.antecedents) hapart hg hr hspan
    hbound hperm
  rw [show d.key = (d.rule.id, d.antecedents) from rfl, hkey] at hcost
  cases hunary : d.rule.rule.isUnary with
  | false =>
      obtain ⟨reals, hnodup, hmem, hitems, hcosts⟩ := costs_completed
        d.antecedents taken hapart hg hr hunary hspan hbound hcovers
      rw [hcosts] at hcost
      exact ⟨reals, ⟨hnodup, hmem, fun _ => hitems⟩, hcost⟩
  | true =>
      -- the closure applies the rule to the constituent itself, without an item
      obtain ⟨s, hsource, hs⟩ := Rule.isUnary_iff.1 hunary
      rw [hsource, realises_unary hs] at hreal
      obtain ⟨k, hk, rfl⟩ := hreal
      have hcosts := costs_completed_unary hapart hg hr hs hsource hspan hbound
        hcovers hperm hk
      rw [← hants, show Trail.antecedents [Step.constituent c.stop s k] = [k]
        from rfl, hcosts] at hcost
      exact ⟨_, foundBy_unary hunary hsource hs hk hants.symm, hcost⟩

end Charting

-- =========================================================== the theorem

namespace GrammarContents

/-- The grammar with a number. -/
def numbered (contents : Nat → GrammarContents E) (n : Nat) :
    GrammarContents E :=
  { contents n with number := n }

theorem apart_numbered (contents : Nat → GrammarContents E) (ns : List Nat) :
    Apart (ns.map (numbered contents)) := by
  intro g hg g' hg' hnumber
  obtain ⟨n, -, rfl⟩ := List.mem_map.1 hg
  obtain ⟨n', -, rfl⟩ := List.mem_map.1 hg'
  have hnumber : n = n' := hnumber
  rw [hnumber]

theorem map_view_numbered (contents : Nat → GrammarContents E) (ns : List Nat)
    (v : Vocabulary) :
    (ns.map fun n => (numbered contents n).view v)
      = (ns.map (numbered contents)).map (·.view v) := by
  rw [List.map_map]
  rfl

theorem countP_numbered (contents : Nat → GrammarContents E) (ns : List Nat)
    (n : Nat) :
    (ns.map (numbered contents)).countP (·.number = n) = ns.count n := by
  rw [List.countP_map, List.count]
  refine List.countP_congr fun m _ => ?_
  rw [Function.comp_apply, decide_eq_true_eq, beq_iff_eq]
  rfl

end GrammarContents

/-- The cheapest cost that is told of a constituent is the least of the costs
of its derivations. -/
theorem cheapest_summary {r : ParseResult} {v : Vocabulary} {id : Nat}
    {c : Constituent} (hc : r.parse.forest.constituents[id]? = some c) :
    (r.summary v).constituents[id]?.map (·.cheapest)
      = some ((c.derivations.toList.map (·.cost)).foldl Cost.least
          Cost.infinite) := by
  have hget : (r.summary v).constituents[id]? = some (c.summary v) := by
    show (r.parse.forest.constituents.toList.map _)[id]? = _
    rw [List.getElem?_map, Array.getElem?_toList, hc]
    rfl
  rw [hget, List.foldl_map, Array.foldl_toList]
  rfl

open GrammarContents in
/-- The derivations of a constituent at the end of a parse with the grammars
of given numbers, some of which may be listed more than once. No two have the
same rule and antecedents. There is one for a rule and antecedents exactly if
the rule has the left-hand side of the constituent, some grammar of the list
has the rule and covers the span, and the rule has a realisation there with
these antecedents. Its cost is the least of the costs of these realisations
in the order of their items; a grammar that is listed several times has
several charts, so it goes through the costs as often, which for numbers
that compare lawfully makes no difference. The cheapest cost that is told of
the constituent is the least of the costs of its derivations. -/
theorem derivations_are_realisations (l : Lattice)
    (contents : Nat → GrammarContents E) (ns : List Nat) (v : Vocabulary)
    (goal : Symbol) :
    ∃ r, l.parse (ns.map fun n => (numbered contents n).view v) goal = .ok r
      ∧ ∀ (id : Nat) (c : Constituent),
        r.parse.forest.constituents[id]? = some c →
          (c.derivations.toList.map Derivation.key).Nodup
          ∧ (∀ (rule : ListedRule) (A : List Nat),
              (∃ d ∈ c.derivations.toList, d.rule = rule ∧ d.antecedents = A)
                ↔ ∃ n ∈ ns, rule ∈ (numbered contents n).listed
                    ∧ rule.rule.lhs = c.lhs ∧ rule.rule.source ≠ []
                    ∧ (numbered contents n).Covers l c.start c.stop
                    ∧ ∃ ts, Realises l r.parse.forest (numbered contents n) v
                          c.stop c.start rule.rule.source ts
                        ∧ Trail.antecedents ts = A)
          ∧ (∀ d ∈ c.derivations.toList, ∀ (k n : Nat), ns[k]? = some n →
              d.rule ∈ (numbered contents n).listed →
              ∃ chart reals,
                r.parse.charts[k]? = some ⟨(numbered contents n).view v, chart⟩
                ∧ Charting.FoundBy l r.parse.forest chart
                    (numbered contents n) v c d reals
                ∧ some d.cost = Cost.leastOf
                    (List.replicate (ns.count n) (reals.map Trail.cost)).flatten
                ∧ (Cost.Lawful →
                    some d.cost = Cost.leastOf (reals.map Trail.cost)))
          ∧ ((r.summary v).constituents[id]?.map (·.cheapest)
              = some ((c.derivations.toList.map (·.cost)).foldl Cost.least
                  Cost.infinite)) := by
  let gs := ns.map (numbered contents)
  have hapart : Apart gs := apart_numbered contents ns
  obtain ⟨r, hparse, hstate, -⟩ := Charting.exists_parse l gs v goal
  rw [map_view_numbered]
  refine ⟨r, hparse, fun id c hc => ?_⟩
  have hcheapest := cheapest_summary (v := v) hc
  rw [hstate] at hc ⊢
  have hc : (Charting.final l (gs.map (·.view v))).forest.constituents[id]?
      = some c := hc
  obtain ⟨hspan, -, taken, -, hcollects⟩ := Charting.collects_final hc
  refine ⟨hcollects.nodup, fun rule A => ?_, fun d hd k n hn hr => ?_,
    hcheapest⟩
  · rw [Charting.mem_derivations hapart hc]
    constructor
    · intro h
      obtain ⟨g, hg, hr, hlhs, hcovers, ts, hreal, hants⟩ := h
      obtain ⟨n, hn, rfl⟩ := List.mem_map.1 hg
      exact ⟨n, hn, hr, hlhs, hreal.source_ne_nil (Nat.ne_of_lt hspan),
        hcovers, ts, hreal, hants⟩
    · intro h
      obtain ⟨n, hn, hr, hlhs, -, hcovers, ts, hreal, hants⟩ := h
      exact ⟨_, List.mem_map_of_mem hn, hr, hlhs, hcovers, ts, hreal, hants⟩
  · have hmem : n ∈ ns := List.mem_of_getElem? hn
    obtain ⟨reals, hfound, hcost⟩ := Charting.exists_foundBy hapart
      (List.mem_map_of_mem hmem) hc hd hr
    have hcount : gs.countP (·.number = (numbered contents n).number)
        = ns.count n := countP_numbered contents ns n
    rw [hcount] at hcost
    refine ⟨_, reals, ?_, hfound, hcost.symm, fun hlawful => ?_⟩
    · simp [Charting.toParse, gs, hn]
    · rw [← hcost, Cost.leastOf_replicate hlawful (List.count_pos_iff.2 hmem)]

end LatticeParsing
