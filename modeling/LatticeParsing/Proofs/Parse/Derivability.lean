/-
A parse finds what is derivable.

`Derivable` says when the rules of several grammars derive a left-hand side
over a span of a lattice. It knows nothing of charts. At the end of a parse
the forest has exactly the constituents that are derivable: one way by
induction on derivations, as every realisation of a rule is completed, and
the other way by induction on the numbers of constituents, as each was found
after the antecedents of its first derivation.
-/
import LatticeParsing.Proofs.Parse.Derivations
import LatticeParsing.Proofs.Parse.Founded

namespace LatticeParsing

variable {E : PatternEngine}

-- =========================================================== derivability

mutual

/-- A left-hand side is derivable over a span by a rule of a grammar that
covers the span, if the source side, which is not empty, matches it. -/
inductive Derivable (l : Lattice) (gs : List (GrammarContents E))
    (v : Vocabulary) : Nat → Nat → Symbol → Prop
  | rule {g : GrammarContents E} {r : ListedRule} {i j : Nat} :
      g ∈ gs → r ∈ g.listed → r.rule.source ≠ [] → g.Covers l i j →
      Matches l gs v g j i r.rule.source → Derivable l gs v i j r.rule.lhs

/-- Symbols match a span piece by piece: a terminal over an arc whose label it
accepts, a nonterminal where it is derivable. -/
inductive Matches (l : Lattice) (gs : List (GrammarContents E))
    (v : Vocabulary) : GrammarContents E → Nat → Nat → List Symbol → Prop
  | nil {g : GrammarContents E} {j : Nat} : Matches l gs v g j j []
  | terminal {g : GrammarContents E} {i j : Nat} {a : Arc} {s : Symbol}
      {source : List Symbol} :
      a ∈ l.arcsFrom i → 0 ≤ s → 0 ≤ a.label → g.Accepts v s a.label →
      Matches l gs v g j a.head source → Matches l gs v g j i (s :: source)
  | nonterminal {g : GrammarContents E} {i k j : Nat} {s : Symbol}
      {source : List Symbol} :
      s < 0 → Derivable l gs v i k s → Matches l gs v g j k source →
      Matches l gs v g j i (s :: source)

end

namespace Charting

variable {l : Lattice} {gs : List (GrammarContents E)} {g : GrammarContents E}
  {v : Vocabulary} {i j id : Nat} {lhs : Symbol} {source : List Symbol}

-- ========================================================= completeness

/-- A source side is realised over spans of the lattice that are not
empty. -/
theorem proper_of_realises {ts : List Step} (hsource : source ≠ [])
    (h : Realises l (final l (gs.map (·.view v))).forest g v j i source ts) :
    i < j ∧ j ≤ l.sourceLength := by
  have hinside := inside_final l (gs.map (·.view v))
  have hne : ts ≠ [] := by
    intro heq
    subst heq
    exact hsource (List.forall₂_nil_right_iff.1 h.accepts)
  refine ⟨lt_of_le_of_ne (h.trail.le hinside) ?_,
    (h.trail.le_sourceLength hinside).resolve_left hne⟩
  intro heq
  subst heq
  exact hne (h.trail.eq_nil hinside)

mutual

/-- What is derivable has a constituent. -/
theorem exists_constituent_of_derivable :
    ∀ {i j : Nat} {lhs : Symbol}, Derivable l gs v i j lhs →
      ∃ id, (lhs, id) ∈ (final l (gs.map (·.view v))).forest.cellAt i j
  | _, _, _, .rule hg hr hsource hcovers hmatches => by
      obtain ⟨ts, hreal⟩ := exists_realises_of_matches hmatches
      obtain ⟨hij, hj⟩ := proper_of_realises hsource hreal
      exact (exists_constituent_iff hij hj).2
        ⟨_, hg, hcovers, _, hr, rfl, ts, hreal⟩

/-- What matches a span is realised there. -/
theorem exists_realises_of_matches :
    ∀ {g : GrammarContents E} {i j : Nat} {source : List Symbol},
      Matches l gs v g j i source →
      ∃ ts, Realises l (final l (gs.map (·.view v))).forest g v j i source ts
  | _, _, _, _, .nil => ⟨[], .nil⟩
  | _, _, _, _, .terminal ha hs _ haccepts hrest => by
      obtain ⟨ts, hreal⟩ := exists_realises_of_matches hrest
      obtain ⟨place, hplace⟩ := List.mem_iff_getElem?.1 ha
      exact ⟨_, .arc hplace hs haccepts hreal⟩
  | _, _, _, _, .nonterminal hs hderivable hrest => by
      obtain ⟨id, hid⟩ := exists_constituent_of_derivable hderivable
      obtain ⟨ts, hreal⟩ := exists_realises_of_matches hrest
      exact ⟨_, .constituent hid hs hreal⟩

end

-- ============================================================ soundness

/-- A realisation matches if the constituents that it crosses are
derivable. -/
theorem matches_of_realises {ts : List Step} {f : Forest} (hf : f.Sound)
    (hids : ∀ id ∈ Trail.antecedents ts, ∀ c, f.constituents[id]? = some c →
      Derivable l gs v c.start c.stop c.lhs)
    (h : Realises l f g v j i source ts) : Matches l gs v g j i source := by
  induction h with
  | nil => exact .nil
  | arc ha hs haccepts _ ih =>
      exact .terminal (List.mem_of_getElem? ha) hs
        (haccepts.nonneg_right hs) haccepts (ih hids)
  | @constituent i k id s source ts hmem hs _ ih =>
      rw [Trail.antecedents_constituent_cons, List.forall_mem_cons] at hids
      obtain ⟨c, hc, rfl, rfl, rfl⟩ := hf.listed.1 hmem
      exact .nonterminal hs (hids.1 c hc) (ih hids.2)

/-- Every constituent is derivable: the antecedents of its first derivation
are, having been found before. -/
theorem derivable_of_constituent {c : Constituent}
    (hc : (final l (gs.map (·.view v))).forest.constituents[id]? = some c) :
    Derivable l gs v c.start c.stop c.lhs := by
  -- by the number, not by the span: rules with a single nonterminal keep the
  -- span
  induction id using Nat.strongRecOn generalizing c with
  | ind id ih =>
      obtain ⟨d, -, hmem, hbefore⟩ := exists_first_derivation hc
      obtain ⟨g, hg, hr, hlhs, hcovers, ts, hreal, hants⟩ :=
        realises_of_mem_derivations hc hmem
      have hspan := (collects_final hc).1
      rw [← hlhs]
      refine .rule hg hr (hreal.source_ne_nil (Nat.ne_of_lt hspan)) hcovers
        (matches_of_realises (fit_final l _).sound ?_ hreal)
      intro a ha c' hc'
      rw [hants] at ha
      exact ih a (hbefore a ha) hc'

/-- The forest has the constituents that are derivable. -/
theorem exists_mem_cellAt_iff :
    (∃ id, (lhs, id) ∈ (final l (gs.map (·.view v))).forest.cellAt i j)
      ↔ Derivable l gs v i j lhs := by
  constructor
  · intro h
    obtain ⟨id, hid⟩ := h
    obtain ⟨c, hc, rfl, rfl, rfl⟩ := (fit_final l _).sound.listed.1 hid
    exact derivable_of_constituent hc
  · exact exists_constituent_of_derivable

end Charting

/-- Nothing is derivable over an empty span. -/
theorem Derivable.start_lt_stop {l : Lattice} {gs : List (GrammarContents E)}
    {v : Vocabulary} {i j : Nat} {lhs : Symbol}
    (h : Derivable l gs v i j lhs) : i < j := by
  obtain ⟨id, hid⟩ := Charting.exists_constituent_of_derivable h
  exact (Charting.inside_final l _ i j _ hid).1

/-- A parse with finished grammars comes to an end. Then the forest has a
constituent with a left-hand side over a span, in its cell and in its list,
exactly if the left-hand side is derivable there, and the goal is reached
exactly if it is derivable over the whole lattice. -/
theorem constituents_are_derivable (l : Lattice) (gs : List (GrammarContents E))
    (v : Vocabulary) (goal : Symbol) :
    ∃ r, l.parse (gs.map (·.view v)) goal = .ok r
      ∧ (∀ (i j : Nat) (lhs : Symbol),
          (r.parse.forest.find? i j lhs).isSome ↔ Derivable l gs v i j lhs)
      ∧ (∀ (i j : Nat) (lhs : Symbol),
          (∃ c ∈ r.parse.forest.constituents,
              c.lhs = lhs ∧ c.start = i ∧ c.stop = j)
            ↔ Derivable l gs v i j lhs)
      ∧ (r.goal.isSome ↔ Derivable l gs v 0 l.sourceLength goal) := by
  obtain ⟨r, hparse, hstate, hgoal⟩ := Charting.exists_parse l gs v goal
  have hsound := (Charting.fit_final l (gs.map (·.view v))).sound
  have hfind : ∀ (i j : Nat) (lhs : Symbol),
      (r.parse.forest.find? i j lhs).isSome ↔ Derivable l gs v i j lhs := by
    intro i j lhs
    rw [← Charting.exists_mem_cellAt_iff, hstate, Option.isSome_iff_exists]
    exact exists_congr fun id => hsound.find?_eq_some
  refine ⟨r, hparse, hfind, fun i j lhs => ?_, ?_⟩
  · rw [← Charting.exists_mem_cellAt_iff, hstate]
    constructor
    · intro h'
      obtain ⟨c, hc, rfl, rfl, rfl⟩ := h'
      obtain ⟨id, hid⟩ := Array.mem_iff_getElem?.1 hc
      exact ⟨id, hsound.mem_of_constituent hid⟩
    · intro h'
      obtain ⟨id, hid⟩ := h'
      obtain ⟨c, hc, hspan⟩ := hsound.listed.1 hid
      exact ⟨c, Array.mem_of_getElem? hc, hspan⟩
  · rw [hgoal]
    unfold Parse.goal?
    split
    case isTrue hzero =>
      refine iff_of_false (by simp) fun h => ?_
      have hlt := h.start_lt_stop
      omega
    case isFalse => exact hfind 0 l.sourceLength goal

end LatticeParsing
