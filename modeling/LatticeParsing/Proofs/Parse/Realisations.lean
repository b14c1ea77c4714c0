/-
What is completed over a span, by the realisations of rules.

A realisation of a source side runs contiguously over arcs, which match its
terminals, and over constituents, which match its nonterminals. The
completions over a span are the realisations of the rules whose grammar
covers it (`mem_completed`): those that cross a constituent alone come from
the closure, since they are rules with a single nonterminal, and all others
from the items that arrive there.
-/
import LatticeParsing.Proofs.Parse.TrailItems

namespace LatticeParsing

variable {E : PatternEngine} {l : Lattice} {f : Forest}
  {g : GrammarContents E} {v : Vocabulary} {i j : Nat} {source : List Symbol}
  {ts : List Step}

-- ======================================================== realisations

/-- A source side is matched by steps that run from node `i` to node `j`:
each terminal by an arc whose label it accepts, each nonterminal by a
constituent of that left-hand side. -/
inductive Realises (l : Lattice) (f : Forest) (g : GrammarContents E)
    (v : Vocabulary) (j : Nat) : Nat → List Symbol → List Step → Prop
  | nil : Realises l f g v j j [] []
  | arc {i place : Nat} {a : Arc} {s : Symbol} {source : List Symbol}
      {ts : List Step} :
      (l.arcsFrom i)[place]? = some a → 0 ≤ s → g.Accepts v s a.label →
      Realises l f g v j a.head source ts →
      Realises l f g v j i (s :: source) (.arc place a :: ts)
  | constituent {i k id : Nat} {s : Symbol} {source : List Symbol}
      {ts : List Step} :
      (s, id) ∈ f.cellAt i k → s < 0 →
      Realises l f g v j k source ts →
      Realises l f g v j i (s :: source) (.constituent k s id :: ts)

/-- What a terminal accepts is a terminal. -/
theorem GrammarContents.Accepts.nonneg_right {s a : Symbol}
    (h : g.Accepts v s a) (hs : 0 ≤ s) : 0 ≤ a := by
  by_contra ha
  rw [GrammarContents.accepts_nonterminal (not_le.1 ha)] at h
  exact ha (h ▸ hs)

/-- Realisations are the trails whose labels the source side accepts. -/
theorem realises_iff :
    Realises l f g v j i source ts
      ↔ Trail l f i ts j
        ∧ List.Forall₂ (g.Accepts v) source (Trail.labels ts) := by
  constructor
  · intro h
    induction h with
    | nil => exact ⟨rfl, .nil⟩
    | arc ha hs haccepts _ ih =>
        exact ⟨⟨⟨ha, haccepts.nonneg_right hs⟩, ih.1⟩, .cons haccepts ih.2⟩
    | constituent hmem hs _ ih =>
        exact ⟨⟨⟨hmem, hs⟩, ih.1⟩,
          .cons ((GrammarContents.accepts_nonterminal hs).2 rfl) ih.2⟩
  · intro h'
    obtain ⟨htrail, haccepts⟩ := h'
    induction ts generalizing i source with
    | nil =>
        have hij : i = j := htrail
        rw [List.forall₂_nil_right_iff.1 haccepts, hij]
        exact .nil
    | cons t ts ih =>
        obtain ⟨s, rest, hs, hrest, rfl⟩ :=
          List.forall₂_cons_right_iff.1 haccepts
        have hnext := ih htrail.2 hrest
        cases t with
        | arc n a =>
            obtain ⟨ha, hlabel⟩ := htrail.1
            exact .arc ha (hs.nonneg hlabel) hs hnext
        | constituent k lhs id =>
            obtain ⟨hmem, hlhs⟩ := htrail.1
            have hs : s = lhs := (GrammarContents.accepts_nonterminal hlhs).1 hs
            subst hs
            exact .constituent hmem hlhs hnext

theorem Realises.trail (h : Realises l f g v j i source ts) :
    Trail l f i ts j :=
  (realises_iff.1 h).1

theorem Realises.accepts (h : Realises l f g v j i source ts) :
    List.Forall₂ (g.Accepts v) source (Trail.labels ts) :=
  (realises_iff.1 h).2

/-- The empty source side is realised over empty spans only. -/
theorem Realises.source_ne_nil (h : Realises l f g v j i source ts)
    (hij : i ≠ j) : source ≠ [] := by
  intro heq
  subst heq
  have hlabels := List.forall₂_nil_left_iff.1 h.accepts
  rw [List.map_eq_nil_iff.1 hlabels] at h
  exact hij h.trail

/-- A source side with a single nonterminal is realised by a constituent
alone. -/
theorem realises_unary {s : Symbol} (hs : s < 0) :
    Realises l f g v j i [s] ts
      ↔ ∃ id, (s, id) ∈ f.cellAt i j ∧ ts = [.constituent j s id] := by
  constructor
  · intro h
    cases h with
    | arc _ hpos => exact absurd hs (not_lt.2 hpos)
    | constituent hmem _ hrest =>
        cases hrest
        exact ⟨_, hmem, rfl⟩
  · intro h'
    obtain ⟨id, hmem, rfl⟩ := h'
    exact .constituent hmem hs .nil

namespace Rule

/-- What it is to have a single nonterminal. -/
theorem isUnary_iff {r : Rule} :
    r.isUnary = true ↔ ∃ s, r.source = [s] ∧ s < 0 := by
  unfold isUnary arity
  constructor
  · intro h
    rw [Bool.and_eq_true, beq_iff_eq, beq_iff_eq] at h
    obtain ⟨s, hs⟩ := List.length_eq_one_iff.1 h.1
    refine ⟨s, hs, ?_⟩
    by_contra hpos
    have hnot := Symbol.isNonterminal_eq_false.2 (not_lt.1 hpos)
    rw [hs] at h
    simp [hnot] at h
  · intro h'
    obtain ⟨s, hs, hneg⟩ := h'
    have hsign := Symbol.isNonterminal_eq_true.2 hneg
    rw [hs]
    simp [hsign]

end Rule

/-- A rule without a single nonterminal is not realised by a constituent
alone. -/
theorem Realises.ne_constituent {r : Rule} (hr : r.isUnary = false)
    (h : Realises l f g v j i r.source ts) (stop : Nat) (lhs : Symbol)
    (id : Nat) : ts ≠ [.constituent stop lhs id] := by
  intro heq
  subst heq
  generalize hsource : r.source = source at h
  cases h with
  | constituent _ hneg hrest =>
      cases hrest
      rw [Rule.isUnary_iff.2 ⟨_, hsource, hneg⟩] at hr
      cases hr

-- ========================================================= completions

namespace Charting

variable {gs : List (GrammarContents E)} {d : Derivation}
  {taken : List (Symbol × Nat)}

/-- The rules that end at items over a span. -/
theorem mem_completionsAt (hij : i ≠ j) {items : GrammarView → List Item} :
    d ∈ completionsAt l (gs.map (·.view v)) i j items
      ↔ ∃ g ∈ gs, g.Covers l i j ∧ ∃ x ∈ items (g.view v),
          ∃ r ∈ x.position.rules, ⟨r, x.antecedents, x.path.cost⟩ = d := by
  unfold completionsAt
  simp only [List.mem_flatMap, List.mem_map, mem_allowed_view hij]
  constructor
  · intro h
    obtain ⟨_, ⟨g, hg, rfl, hcovers⟩, hx⟩ := h
    exact ⟨g, hg, hcovers, hx⟩
  · intro h
    obtain ⟨g, hg, hcovers, hx⟩ := h
    exact ⟨_, ⟨g, hg, rfl, hcovers⟩, hx⟩

/-- The rules with a single nonterminal that apply to constituents over a
span. -/
theorem mem_unaryAt (hij : i ≠ j) :
    d ∈ unaryAt l (gs.map (·.view v)) i j taken
      ↔ ∃ g ∈ gs, g.Covers l i j ∧ ∃ r ∈ g.listed, ∃ s id,
          (s, id) ∈ taken ∧ s < 0 ∧ r.rule.source = [s]
            ∧ d = ⟨r, [id], .zero⟩ := by
  unfold unaryAt
  simp only [List.mem_flatMap, mem_allowed_view hij]
  constructor
  · intro h'
    obtain ⟨⟨lhs, id⟩, hmem, _, ⟨g, hg, rfl, hcovers⟩, hd⟩ := h'
    simp only [← GrammarView.walk?_singleton] at hd
    split at hd
    case h_1 => cases hd
    case h_2 p hp =>
      obtain ⟨r, hr, rfl⟩ := List.mem_map.1 hd
      obtain ⟨hr, hunary⟩ := List.mem_filter.1 hr
      obtain ⟨hlisted, haccepts⟩ := (GrammarContents.mem_rules_of_walk? hp).1 hr
      obtain ⟨s, hsource, hs⟩ := Rule.isUnary_iff.1 hunary
      rw [hsource] at haccepts
      have hlhs : s = lhs := by
        cases haccepts with
        | cons h _ =>
            have hneg : lhs < 0 := by
              by_contra hpos
              exact absurd hs (not_lt.2 (h.nonneg (not_lt.1 hpos)))
            exact (GrammarContents.accepts_nonterminal hneg).1 h
      subst hlhs
      exact ⟨g, hg, hcovers, r, hlisted, s, id, hmem, hs, hsource, rfl⟩
  · intro h'
    obtain ⟨g, hg, hcovers, r, hlisted, s, id, hmem, hs, hsource, rfl⟩ := h'
    refine ⟨(s, id), hmem, _, ⟨g, hg, rfl, hcovers⟩, ?_⟩
    obtain ⟨p, hp, hr⟩ := GrammarContents.exists_walk?_unary (v := v) hlisted
      hs hsource
    simp only [← GrammarView.walk?_singleton, hp]
    exact List.mem_map.2 ⟨r, List.mem_filter.2
      ⟨hr, Rule.isUnary_iff.2 ⟨s, hsource, hs⟩⟩, rfl⟩

/-- The trails that arrive and realise a rule. -/
theorem arrives_of_realises {r : ListedRule} (hr : r ∈ g.listed)
    (hunary : r.rule.isUnary = false)
    (h : Realises l f g v j i r.rule.source ts) :
    Arrives l f (g.view v) i j ts := by
  obtain ⟨p, hp, -⟩ := GrammarContents.exists_walk? hr h.accepts
  exact ⟨h.trail, Option.isSome_of_eq_some hp, h.ne_constituent hunary⟩

/-- A trail that arrives realises no rule with a single nonterminal. -/
theorem not_isUnary_of_arrives {r : Rule}
    (harrives : Arrives l f (g.view v) i j ts)
    (h : Realises l f g v j i r.source ts) : r.isUnary = false := by
  rw [Bool.eq_false_iff]
  intro hunary
  obtain ⟨s, hsource, hs⟩ := Rule.isUnary_iff.1 hunary
  rw [hsource, realises_unary hs] at h
  obtain ⟨id, -, hts⟩ := h
  exact harrives.2.2 _ _ _ hts

/-- The rules at the item of a trail that arrives are those that it
realises. -/
theorem mem_rules_of_carries {x : Item} {r : ListedRule}
    (hx : Carries (g.view v) i j ts x) (htrail : Trail l f i ts j) :
    r ∈ x.position.rules
      ↔ r ∈ g.listed ∧ Realises l f g v j i r.rule.source ts := by
  rw [GrammarContents.mem_rules_of_walk? hx.position, realises_iff]
  exact and_congr_right fun _ => (and_iff_right htrail).symm

/-- What is completed over a span are the realisations of the rules that may
apply there. -/
theorem mem_completed (hij : i < j) (hj : j ≤ l.sourceLength)
    (hperm : ((final l (gs.map (·.view v))).forest.cellAt i j).Perm taken) :
    d ∈ completed l (gs.map (·.view v)) i j taken
      ↔ ∃ g ∈ gs, g.Covers l i j ∧ ∃ r ∈ g.listed, ∃ ts,
          Realises l (final l (gs.map (·.view v))).forest g v j i
              r.rule.source ts
            ∧ d = ⟨r, Trail.antecedents ts, Trail.cost ts⟩ := by
  have hne := Nat.ne_of_lt hij
  unfold completed
  rw [List.mem_append, mem_completionsAt hne, mem_unaryAt hne]
  constructor
  · intro h
    rcases h with ⟨g, hg, hcovers, x, hx, r, hr, rfl⟩ |
      ⟨g, hg, hcovers, r, hr, s, id, hmem, hs, hsource, rfl⟩
    · obtain ⟨ts, harrives, hcarries⟩ :=
        (enumerates_arrivals _ _ _ hij hj).exists_of_mem hx
      obtain ⟨hlisted, hreal⟩ :=
        (mem_rules_of_carries hcarries harrives.1).1 hr
      obtain ⟨p, -, rfl⟩ := hcarries
      exact ⟨g, hg, hcovers, r, hlisted, ts, hreal, rfl⟩
    · refine ⟨g, hg, hcovers, r, hr, [.constituent j s id], ?_, rfl⟩
      rw [hsource, realises_unary hs]
      exact ⟨id, hperm.mem_iff.2 hmem, rfl⟩
  · intro h
    obtain ⟨g, hg, hcovers, r, hr, ts, hreal, rfl⟩ := h
    cases hunary : r.rule.isUnary with
    | false =>
        have harrives := arrives_of_realises hr hunary hreal
        obtain ⟨x, hx, hcarries⟩ :=
          (enumerates_arrivals _ _ _ hij hj).exists_mem harrives
        refine Or.inl ⟨g, hg, hcovers, x, hx, r,
          (mem_rules_of_carries hcarries harrives.1).2 ⟨hr, hreal⟩, ?_⟩
        obtain ⟨p, -, rfl⟩ := hcarries
        rfl
    | true =>
        obtain ⟨s, hsource, hs⟩ := Rule.isUnary_iff.1 hunary
        rw [hsource, realises_unary hs] at hreal
        obtain ⟨id, hmem, rfl⟩ := hreal
        exact Or.inr ⟨g, hg, hcovers, r, hr, s, id, hperm.mem_iff.1 hmem, hs,
          hsource, rfl⟩

end Charting

end LatticeParsing
