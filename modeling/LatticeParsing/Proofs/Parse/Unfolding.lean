/-
Derivations unfold into trees.

Rules with a single nonterminal may go round in a circle, and then so do the
derivations that a parse records. What is shown here is that nothing else
does. The antecedents of a first derivation have lesser numbers than what it
derives (`Founded`), and so have all antecedents of a rule with two or more
source symbols, because they stand over narrower spans (`uses_cases`,
`lt_of_narrower`).

So a constituent can be unfolded by first derivations into a finite tree
with arcs for its leaves, which form a path over its span (`exists_tree`, by
induction on the number). And as spans never widen from a constituent to its
antecedents, an edge on a cycle keeps the span, which only a rule with a
single nonterminal does (`unary_of_cycle`).
-/
import LatticeParsing.Proofs.Lattice.Distances
import LatticeParsing.Proofs.Parse.Derivations
import LatticeParsing.Proofs.Parse.Founded
import LatticeParsing.Proofs.Parse.Numbering
import Mathlib.Logic.Relation

namespace LatticeParsing

variable {E : PatternEngine}

-- =============================================================== trails

namespace Trail

variable {l : Lattice} {f : Forest} {i j : Nat} {ts : List Step} {s : Step}

/-- Every step leads at least one node further. -/
theorem add_length_le (hf : Inside l f) (h : Trail l f i ts j) :
    i + ts.length ≤ j := by
  induction ts generalizing i with
  | nil => exact Nat.le_of_eq h
  | cons t ts ih =>
      have hlt := (forward_of_crosses hf h.1).1
      have hle := ih h.2
      rw [List.length_cons]
      omega

/-- A step of a trail keeps within its span, and leaves room for the other
steps. -/
theorem within_of_mem (hf : Inside l f) (h : Trail l f i ts j)
    (hs : s ∈ ts) :
    ∃ k, s.Crosses l f k ∧ i ≤ k ∧ s.stop ≤ j
      ∧ s.stop - k + ts.length ≤ j - i + 1 := by
  obtain ⟨front, back, rfl⟩ := List.append_of_mem hs
  obtain ⟨k, hfront, hcross, hback⟩ := append_iff.1 h
  have hbefore := hfront.add_length_le hf
  have hafter := add_length_le hf hback
  have hforward := (forward_of_crosses hf hcross).1
  refine ⟨k, hcross, by omega, by omega, ?_⟩
  rw [List.length_append, List.length_cons]
  omega

end Trail

-- ================================================================ trees

/-- A tree of rule applications. Its leaves are arcs; a node is a rule that
is applied to give a constituent, and has one part for every symbol of the
source side. -/
inductive RuleTree where
  | arc (a : Arc)
  | apply (id : Nat) (rule : ListedRule) (parts : List RuleTree)

namespace RuleTree

mutual

/-- The arcs at the leaves of a tree, from left to right. -/
def arcs : RuleTree → List Arc
  | arc a => [a]
  | apply _ _ parts => partsArcs parts

/-- The arcs at the leaves of several trees, from left to right. -/
def partsArcs : List RuleTree → List Arc
  | [] => []
  | t :: ts => t.arcs ++ partsArcs ts

end

end RuleTree

/-- A tree unfolds a step of a realisation. An arc is a leaf. A constituent
is given by its first derivation: by the rule of the derivation, which is
listed in a grammar that covers the span, with parts that unfold the steps
of a realisation of its source side that has the antecedents of the
derivation. -/
inductive Unfolds (l : Lattice) (f : Forest) (gs : List (GrammarContents E))
    (v : Vocabulary) : Step → RuleTree → Prop
  | arc {place : Nat} {a : Arc} : Unfolds l f gs v (.arc place a) (.arc a)
  | constituent {id : Nat} {c : Constituent} {d : Derivation}
      {g : GrammarContents E} {ts : List Step} {parts : List RuleTree} :
      f.constituents[id]? = some c → c.derivations[0]? = some d →
      g ∈ gs → d.rule ∈ g.listed → g.Covers l c.start c.stop →
      d.rule.rule.source ≠ [] →
      Realises l f g v c.stop c.start d.rule.rule.source ts →
      Trail.antecedents ts = d.antecedents →
      List.Forall₂ (Unfolds l f gs v) ts parts →
      Unfolds l f gs v (.constituent c.stop c.lhs id)
        (.apply id d.rule parts)

-- ================================================================ edges

namespace Forest

/-- Whether constituent `id` has the derivation `d` with constituent `a`
among its antecedents. -/
def Uses (f : Forest) (id : Nat) (d : Derivation) (a : Nat) : Prop :=
  ∃ c, f.constituents[id]? = some c ∧ d ∈ c.derivations.toList
    ∧ a ∈ d.antecedents

/-- Whether a constituent is an antecedent of another: the edges of the
graph of derivations. -/
def LeadsTo (f : Forest) (id a : Nat) : Prop := ∃ d, f.Uses id d a

end Forest

namespace Charting

variable {l : Lattice} {gs : List (GrammarContents E)} {g : GrammarContents E}
  {v : Vocabulary} {i j id a : Nat} {c : Constituent} {d : Derivation}
  {source : List Symbol} {ts : List Step}

/-- An antecedent of a realisation is a constituent within its span, which
is narrower if there are two or more source symbols. -/
theorem antecedent_cases
    (h : Realises l (final l (gs.map (·.view v))).forest g v j i source ts)
    (ha : a ∈ Trail.antecedents ts) :
    ∃ c', (final l (gs.map (·.view v))).forest.constituents[a]? = some c'
      ∧ i ≤ c'.start ∧ c'.stop ≤ j
      ∧ (2 ≤ source.length → c'.stop - c'.start < j - i)
      ∧ (source.length = 1 → source = [c'.lhs] ∧ c'.lhs < 0
          ∧ Trail.antecedents ts = [a]) := by
  have hsound := (fit_final l (gs.map (·.view v))).sound
  obtain ⟨s, hs, hid⟩ := List.mem_filterMap.1 ha
  cases s with
  | arc n arc => cases hid
  | constituent stop lhs id =>
      injection hid with hid
      subst hid
      obtain ⟨k, hcross, hik, hj, hroom⟩ :=
        h.trail.within_of_mem (inside_final l _) hs
      obtain ⟨c', hc', rfl, rfl, rfl⟩ := hsound.listed.1 hcross.1
      have hlength : source.length = ts.length := by
        have hlength := h.accepts.length_eq
        rwa [Trail.labels, List.length_map] at hlength
      have hstop : c'.stop - c'.start + ts.length ≤ j - i + 1 := hroom
      refine ⟨c', hc', hik, hj, fun htwo => by omega, fun hone => ?_⟩
      rw [hlength] at hone
      obtain ⟨t, rfl⟩ := List.length_eq_one_iff.1 hone
      rw [List.mem_singleton] at hs
      subst hs
      cases h with
      | constituent hmem hneg hrest =>
          cases hrest
          exact ⟨rfl, hneg, rfl⟩

/-- Where an edge of the graph leads: to a constituent within the span. By a
rule with two or more source symbols it is narrower, and otherwise the rule
has a single nonterminal. -/
theorem uses_cases
    (h : (final l (gs.map (·.view v))).forest.Uses id d a) :
    ∃ c c', (final l (gs.map (·.view v))).forest.constituents[id]? = some c
      ∧ (final l (gs.map (·.view v))).forest.constituents[a]? = some c'
      ∧ c.start ≤ c'.start ∧ c'.stop ≤ c.stop
      ∧ (2 ≤ d.rule.rule.source.length →
          c'.stop - c'.start < c.stop - c.start ∧ a < id)
      ∧ (d.rule.rule.source.length < 2 →
          d.rule.rule.isUnary = true ∧ d.antecedents = [a]) := by
  obtain ⟨c, hc, hd, ha⟩ := h
  obtain ⟨g, -, -, -, -, ts, hreal, hants⟩ := realises_of_mem_derivations hc hd
  rw [← hants] at ha ⊢
  obtain ⟨c', hc', hstart, hstop, htwo, hone⟩ := antecedent_cases hreal ha
  refine ⟨c, c', hc, hc', hstart, hstop, fun hlength => ?_, fun hlength => ?_⟩
  · have hwidth := htwo hlength
    exact ⟨hwidth, lt_of_narrower hc' hc hwidth⟩
  · have hne := hreal.source_ne_nil (Nat.ne_of_lt (collects_final hc).1)
    have hpos := List.length_pos_iff.2 hne
    obtain ⟨hsource, hneg, hsingle⟩ := hone (by omega)
    exact ⟨Rule.isUnary_iff.2 ⟨c'.lhs, hsource, hneg⟩, hsingle⟩

/-- Spans do not widen along edges. -/
theorem within_of_leadsTo
    (h : Relation.ReflTransGen
      (final l (gs.map (·.view v))).forest.LeadsTo id a)
    (hc : (final l (gs.map (·.view v))).forest.constituents[id]? = some c) :
    ∃ c', (final l (gs.map (·.view v))).forest.constituents[a]? = some c'
      ∧ c.start ≤ c'.start ∧ c'.stop ≤ c.stop := by
  induction h with
  | refl => exact ⟨c, hc, Nat.le_refl _, Nat.le_refl _⟩
  | tail _ hstep ih =>
      obtain ⟨c₁, hc₁, hstart, hstop⟩ := ih
      obtain ⟨d, huses⟩ := hstep
      obtain ⟨c₂, c', hc₂, hc', hstart', hstop', -⟩ := uses_cases huses
      rw [hc₁] at hc₂
      injection hc₂ with hc₂
      subst hc₂
      exact ⟨c', hc', by omega, by omega⟩

/-- An edge on a cycle is a rule with a single nonterminal, applied within
one cell. -/
theorem unary_of_cycle
    (h : (final l (gs.map (·.view v))).forest.Uses id d a)
    (hback : Relation.ReflTransGen
      (final l (gs.map (·.view v))).forest.LeadsTo a id) :
    d.rule.rule.isUnary = true ∧ d.antecedents = [a]
      ∧ ∃ c c', (final l (gs.map (·.view v))).forest.constituents[id]? = some c
        ∧ (final l (gs.map (·.view v))).forest.constituents[a]? = some c'
        ∧ c'.start = c.start ∧ c'.stop = c.stop := by
  obtain ⟨c, c', hc, hc', hstart, hstop, htwo, hone⟩ := uses_cases h
  obtain ⟨c₁, hc₁, hstart', hstop'⟩ := within_of_leadsTo hback hc'
  rw [hc] at hc₁
  injection hc₁ with hc₁
  subst hc₁
  have hfew : d.rule.rule.source.length < 2 := by
    by_contra hmany
    have hwidth := (htwo (Nat.le_of_not_lt hmany)).1
    omega
  obtain ⟨hunary, hsingle⟩ := hone hfew
  exact ⟨hunary, hsingle, c, c', hc, hc', by omega, by omega⟩

-- ============================================================ unfolding

/-- The steps of a realisation are unfolded by trees whose leaves form a
path, if its constituents are. -/
theorem exists_parts
    (h : Realises l (final l (gs.map (·.view v))).forest g v j i source ts)
    (hids : ∀ k ∈ Trail.antecedents ts, ∀ c,
      (final l (gs.map (·.view v))).forest.constituents[k]? = some c →
        ∃ t, Unfolds l (final l (gs.map (·.view v))).forest gs v
            (.constituent c.stop c.lhs k) t
          ∧ l.Path c.start t.arcs c.stop) :
    ∃ parts, List.Forall₂
        (Unfolds l (final l (gs.map (·.view v))).forest gs v) ts parts
      ∧ l.Path i (RuleTree.partsArcs parts) j := by
  induction h with
  | nil => exact ⟨[], .nil, rfl⟩
  | @arc i place a s source ts ha _ _ _ ih =>
      obtain ⟨parts, hparts, hpath⟩ := ih hids
      exact ⟨.arc a :: parts, .cons .arc hparts, List.mem_of_getElem? ha,
        hpath⟩
  | @constituent i k id s source ts hmem _ _ ih =>
      rw [Trail.antecedents_constituent_cons, List.forall_mem_cons] at hids
      obtain ⟨c, hc, rfl, rfl, rfl⟩ := (fit_final l _).sound.listed.1 hmem
      obtain ⟨t, ht, hpath⟩ := hids.1 c hc
      obtain ⟨parts, hparts, hrest⟩ := ih hids.2
      exact ⟨t :: parts, .cons ht hparts,
        Lattice.Path.append_iff.2 ⟨c.stop, hpath, hrest⟩⟩

/-- Following first derivations from a constituent ends in a tree. -/
theorem exists_tree
    (hc : (final l (gs.map (·.view v))).forest.constituents[id]? = some c) :
    ∃ t, Unfolds l (final l (gs.map (·.view v))).forest gs v
        (.constituent c.stop c.lhs id) t
      ∧ l.Path c.start t.arcs c.stop := by
  induction id using Nat.strongRecOn generalizing c with
  | ind id ih =>
      obtain ⟨d, hd, hmem, hbefore⟩ := exists_first_derivation hc
      obtain ⟨g, hg, hr, -, hcovers, ts, hreal, hants⟩ :=
        realises_of_mem_derivations hc hmem
      have hne := hreal.source_ne_nil (Nat.ne_of_lt (collects_final hc).1)
      have hids : ∀ k ∈ Trail.antecedents ts, k < id := by
        rw [hants]
        exact hbefore
      obtain ⟨parts, hparts, hpath⟩ := exists_parts hreal
        fun k hk c' hc' => ih k (hids k hk) hc'
      exact ⟨.apply id d.rule parts,
        .constituent hc hd hg hr hcovers hne hreal hants hparts, hpath⟩

end Charting

/-- The derivations of a parse are well founded but for rules with a single
nonterminal. At the end of every parse each constituent has a first
derivation, all of whose antecedents have lesser numbers. Whatever the place
of a derivation, if its rule has two or more source symbols its antecedents
have lesser numbers and stand over narrower spans within that of the
constituent. So following first derivations from a constituent ends: there
is a finite tree of their rules, and the arcs at its leaves lead from the
start of the constituent to its stop. Where a derivation leads back to what
it derives, along any edges, its rule has a single nonterminal and its
antecedent stands over the same span. -/
theorem derivations_are_founded (l : Lattice) (gs : List (GrammarContents E))
    (v : Vocabulary) (goal : Symbol) :
    ∃ r, l.parse (gs.map (·.view v)) goal = .ok r
      ∧ (∀ (id : Nat) (c : Constituent),
          r.parse.forest.constituents[id]? = some c →
            (∃ d, c.derivations[0]? = some d ∧ ∀ a ∈ d.antecedents, a < id)
            ∧ (∀ d ∈ c.derivations.toList, 2 ≤ d.rule.rule.source.length →
                ∀ a ∈ d.antecedents, a < id
                  ∧ ∃ c', r.parse.forest.constituents[a]? = some c'
                    ∧ c.start ≤ c'.start ∧ c'.stop ≤ c.stop
                    ∧ c'.stop - c'.start < c.stop - c.start)
            ∧ ∃ t, Unfolds l r.parse.forest gs v
                  (.constituent c.stop c.lhs id) t
                ∧ l.Path c.start t.arcs c.stop)
      ∧ ∀ (id a : Nat) (d : Derivation), r.parse.forest.Uses id d a →
          Relation.ReflTransGen r.parse.forest.LeadsTo a id →
            d.rule.rule.isUnary = true ∧ d.antecedents = [a]
            ∧ ∃ c c', r.parse.forest.constituents[id]? = some c
              ∧ r.parse.forest.constituents[a]? = some c'
              ∧ c'.start = c.start ∧ c'.stop = c.stop := by
  obtain ⟨r, hparse, hstate, -⟩ := Charting.exists_parse l gs v goal
  refine ⟨r, hparse, fun id c hc => ?_, fun id a d huses hback => ?_⟩
  · rw [hstate] at hc ⊢
    refine ⟨(Charting.founded_final l _).grounded id c hc,
      fun d hd htwo a ha => ?_, Charting.exists_tree hc⟩
    obtain ⟨c₁, c', hc₁, hc', hstart, hstop, hnarrower, -⟩ :=
      Charting.uses_cases ⟨c, hc, hd, ha⟩
    have heq : some c = some c₁ := hc.symm.trans hc₁
    injection heq with heq
    subst heq
    obtain ⟨hwidth, hlt⟩ := hnarrower htwo
    exact ⟨hlt, c', hc', hstart, hstop, hwidth⟩
  · rw [hstate] at huses hback ⊢
    exact Charting.unary_of_cycle huses hback

end LatticeParsing
