/-
Spans are closed under rules with a single nonterminal.

When a span is taken, its cell is empty. Its items are completed, and the
closure goes on from what they have made (`ClosedLeast`).

Items over a span never end at a rule with a single nonterminal, since they
come to be before there is anything over the whole span
(`isUnary_of_mem_completionsAt`). So what the closure records differs in its
rules from what the items have completed, and comes after it
(`exists_added`).

That nothing else is in the cell in the end goes by the numbers of the
constituents: one that the closure has made has a first derivation from a
constituent that was made before it (`Founded`).
-/
import LatticeParsing.Proofs.Parse.Derivations
import LatticeParsing.Proofs.Parse.Founded

namespace LatticeParsing

variable {E : PatternEngine}

open Parse

-- ============================================================ relabelling

/-- Whether a rule makes a constituent over a span of one that has the
left-hand side `s`: its source side is that nonterminal alone, and a grammar
of the list that covers the span has it. -/
def Relabels (l : Lattice) (gs : List (GrammarContents E)) (i j : Nat)
    (r : ListedRule) (s : Symbol) : Prop :=
  r.rule.source = [s] ∧ s < 0 ∧ ∃ g ∈ gs, g.Covers l i j ∧ r ∈ g.listed

/-- The least set of left-hand sides over a span that contains those of `base`
and that rules with a single nonterminal do not lead out of. -/
inductive RelabelClosure (l : Lattice) (gs : List (GrammarContents E))
    (i j : Nat) (base : Symbol → Prop) : Symbol → Prop
  | base {s : Symbol} : base s → RelabelClosure l gs i j base s
  | relabel {s : Symbol} {r : ListedRule} :
      RelabelClosure l gs i j base s → Relabels l gs i j r s →
      RelabelClosure l gs i j base r.rule.lhs

/-- The derivations of a constituent; none where it is not there. -/
def Forest.derivationsOf (f : Forest) (id : Nat) : List Derivation :=
  (f.constituents[id]?.map (·.derivations.toList)).getD []

/-- What the closure makes of the forest `f` over a span, taking the
constituents `taken` from its queue, when it ends with the forest `f'`. -/
structure ClosedLeast (l : Lattice) (gs : List (GrammarContents E)) (i j : Nat)
    (f f' : Forest) (taken : List (Symbol × Nat)) : Prop where
  /-- The constituents of the cell are taken, each once. -/
  once : taken.Nodup ∧ ∀ e, e ∈ taken ↔ e ∈ f'.cellAt i j
  /-- The left-hand sides over the span are the least closed set. -/
  least : ∀ s, (∃ id, (s, id) ∈ f'.cellAt i j)
    ↔ RelabelClosure l gs i j (fun s => ∃ id, (s, id) ∈ f.cellAt i j) s
  /-- Every rule has one derivation from each constituent it applies to. -/
  derived : ∀ r s id, Relabels l gs i j r s → (s, id) ∈ f'.cellAt i j →
    ∃ k c, (r.rule.lhs, k) ∈ f'.cellAt i j ∧ f'.constituents[k]? = some c
      ∧ c.derivations.toList.countP
          (fun d => d.rule = r ∧ d.antecedents = [id]) = 1
  /-- These derivations come after those that were there, and there are no
  others. -/
  added : ∀ k c, f'.constituents[k]? = some c →
    ∃ new, c.derivations.toList = f.derivationsOf k ++ new
      ∧ ∀ d ∈ new, c.start = i ∧ c.stop = j ∧ d.rule.rule.lhs = c.lhs
          ∧ ∃ s id, Relabels l gs i j d.rule s ∧ (s, id) ∈ f'.cellAt i j
              ∧ d.antecedents = [id]

namespace Charting

variable {l : Lattice} {gs : List (GrammarContents E)} {v : Vocabulary}
  {i j : Nat} {x : Charting} {taken : List (Symbol × Nat)} {d e : Derivation}

-- ============================================================= two phases

/-- What applies to constituents are the rules that relabel them. -/
theorem mem_unaryAt_iff (hij : i ≠ j) :
    d ∈ unaryAt l (gs.map (·.view v)) i j taken
      ↔ ∃ r s id, Relabels l gs i j r s ∧ (s, id) ∈ taken
          ∧ d = ⟨r, [id], .zero⟩ := by
  rw [mem_unaryAt hij]
  constructor
  · rintro ⟨g, hg, hcovers, r, hr, s, id, hmem, hs, hsource, rfl⟩
    exact ⟨r, s, id, ⟨hsource, hs, g, hg, hcovers, hr⟩, hmem, rfl⟩
  · rintro ⟨r, s, id, ⟨hsource, hs, g, hg, hcovers, hr⟩, hmem, rfl⟩
    exact ⟨g, hg, hcovers, r, hr, s, id, hmem, hs, hsource, rfl⟩

/-- What the items over a span complete when it is taken. -/
abbrev itemCompletions (l : Lattice) (gs : List (GrammarContents E))
    (v : Vocabulary) (x : Charting) (i j : Nat) : List Completion :=
  completionsAt l (gs.map (·.view v)) i j fun g =>
    (x.expanded l (i, j) g).itemsAt i j

section

variable (h : Taking l (gs.map (·.view v)) i j x) (hij : i < j)
  (hj : j ≤ l.sourceLength)

include h hij hj

/-- Items over a span end at no rule with a single nonterminal when it is
taken. -/
theorem isUnary_of_mem_completionsAt
    (hd : d ∈ itemCompletions l gs v x i j) :
    (∃ g ∈ gs, d.rule ∈ g.listed) ∧ d.rule.rule.isUnary = false := by
  obtain ⟨g, hg, -, y, hy, r, hr, rfl⟩ :=
    (mem_completionsAt (Nat.ne_of_lt hij)).1 hd
  rw [h.itemsAt_expanded hij hj] at hy
  obtain ⟨ts, harrives, hcarries⟩ :=
    (enumerates_arrivals _ _ _ hij hj).exists_of_mem hy
  obtain ⟨hlisted, hreal⟩ := (mem_rules_of_carries hcarries harrives.1).1 hr
  exact ⟨⟨g, hg, hlisted⟩, not_isUnary_of_arrives harrives hreal⟩

/-- The closure records other derivations than the items complete. -/
theorem key_ne_of_mem_unaryAt (hapart : GrammarContents.Apart gs)
    (hd : d ∈ itemCompletions l gs v x i j)
    (he : e ∈ unaryAt l (gs.map (·.view v)) i j taken) : d.key ≠ e.key := by
  intro hkey
  obtain ⟨⟨g, hg, hlisted⟩, hunary⟩ :=
    isUnary_of_mem_completionsAt h hij hj hd
  obtain ⟨r, s, id, ⟨hsource, hs, g', hg', -, hr⟩, -, rfl⟩ :=
    (mem_unaryAt_iff (Nat.ne_of_lt hij)).1 he
  have hid : d.rule.id = r.id := congrArg Prod.fst hkey
  rw [(hapart.rule_unique hg hg' hlisted hr hid).2,
    Rule.isUnary_iff.2 ⟨s, hsource, hs⟩] at hunary
  cases hunary

/-- Before the closure, the constituents over the span have what the items
complete. -/
theorem collects_completedAt {id : Nat} {c : Constituent}
    (hc : (completedAt l (gs.map (·.view v)) x i j).forest.constituents[id]?
      = some c) (hstart : c.start = i) (hstop : c.stop = j) :
    Collects (Forest.withLhs c.lhs (itemCompletions l gs v x i j))
      c.derivations.toList := by
  have hspan : Proper l (i, j) := ⟨hij, hj⟩
  have hrec := records_completedAt (gs.map (·.view v)) h.fit
    (Nat.le_of_lt hij) hspan.le_nodeCount
  have hmem := hrec.sound.mem_of_constituent hc
  rw [hstart, hstop] at hmem
  obtain ⟨id', hentry⟩ := hrec.entry c.lhs
  rw [hrec.sound.entry?_of_mem hmem, hc,
    Forest.entry?_of_not_mem (by simp [h.cell])] at hentry
  exact Forest.collects_of_gather hentry

-- ================================================================ closure

variable (hapart : GrammarContents.Apart gs) {f' : Forest} {made : List Nat}
  (hrec : Forest.Records i j (unaryAt l (gs.map (·.view v)) i j taken) made
    (completedAt l (gs.map (·.view v)) x i j).forest f')

include hapart hrec

/-- The closure leaves what constituents have and adds what applies to the
constituents taken, all of it over the span. -/
theorem exists_added {k : Nat} {c : Constituent}
    (hc : f'.constituents[k]? = some c) :
    ∃ new, c.derivations.toList
        = (completedAt l (gs.map (·.view v)) x i j).forest.derivationsOf k
          ++ new
      ∧ (new = [] ∨ c.start = i ∧ c.stop = j)
      ∧ (c.start = i ∧ c.stop = j →
          (c.derivations.toList.map Derivation.key).Nodup
          ∧ Collects (Forest.withLhs c.lhs
              (unaryAt l (gs.map (·.view v)) i j taken)) new) := by
  have hspan : Proper l (i, j) := ⟨hij, hj⟩
  have hsound := (records_completedAt (gs.map (·.view v)) h.fit
    (Nat.le_of_lt hij) hspan.le_nodeCount).sound
  unfold Forest.derivationsOf
  rcases hrec.constituent_cases hsound hc with
    ⟨hstart, hstop, n, hgather⟩ | ⟨hspan, hold⟩
  · cases hold : (completedAt l (gs.map (·.view v)) x
        i j).forest.constituents[k]? with
    | none =>
        rw [hold] at hgather
        have hcollects := Forest.collects_of_gather hgather
        exact ⟨_, rfl, Or.inr ⟨hstart, hstop⟩, fun _ =>
          ⟨hcollects.nodup, hcollects⟩⟩
    | some b =>
        rw [hold, Forest.gather_some] at hgather
        injection hgather with hgather
        obtain ⟨hlhs, hstart', hstop'⟩ := hrec.sound.span_eq
          (hrec.mem_cellAt (hsound.mem_of_constituent hold))
          (hrec.sound.mem_of_constituent hc)
        have hbefore := collects_completedAt h hij hj hold
          (hstart'.trans hstart) (hstop'.trans hstop)
        have hother : ∀ e ∈ Forest.withLhs c.lhs
              (unaryAt l (gs.map (·.view v)) i j taken),
            e.key ∉ b.derivations.toList.map Derivation.key := by
          intro e he hkey
          obtain ⟨d, hd, hsame⟩ :=
            List.mem_map.1 ((hbefore.mem_keys _).1 hkey)
          exact key_ne_of_mem_unaryAt h hij hj hapart
            (Forest.mem_withLhs.1 hd).1 (Forest.mem_withLhs.1 he).1 hsame
        obtain ⟨new, hnew, hcollects⟩ := Constituent.recordAll_apart hbefore
          (List.append_nil _).symm .nil hother
        rw [← hgather] at hnew
        refine ⟨new, hnew, Or.inr ⟨hstart, hstop⟩, fun _ => ⟨?_, hcollects⟩⟩
        rw [hgather]
        exact (Constituent.collects_recordAll hbefore _).nodup
  · rw [hold]
    exact ⟨[], (List.append_nil _).symm, Or.inl rfl,
      fun hover => absurd hover hspan⟩

/-- What the closure adds relabels constituents that it has taken. -/
theorem relabels_of_added {k : Nat} {c : Constituent}
    (hc : f'.constituents[k]? = some c) :
    ∃ new, c.derivations.toList
        = (completedAt l (gs.map (·.view v)) x i j).forest.derivationsOf k
          ++ new
      ∧ ∀ d ∈ new, c.start = i ∧ c.stop = j ∧ d.rule.rule.lhs = c.lhs
          ∧ ∃ s id, Relabels l gs i j d.rule s ∧ (s, id) ∈ taken
              ∧ d.antecedents = [id] := by
  obtain ⟨new, hnew, hplace, hcollects⟩ :=
    exists_added h hij hj hapart hrec hc
  refine ⟨new, hnew, fun d hd => ?_⟩
  have hspan : c.start = i ∧ c.stop = j :=
    hplace.resolve_left (List.ne_nil_of_mem hd)
  obtain ⟨e, he, hkey, hrule⟩ := (hcollects hspan).2.rule d hd
  obtain ⟨he, hlhs⟩ := Forest.mem_withLhs.1 he
  obtain ⟨r, s, id, hrelabels, hmem, rfl⟩ :=
    (mem_unaryAt_iff (Nat.ne_of_lt hij)).1 he
  obtain rfl : r = d.rule := hrule
  exact ⟨hspan.1, hspan.2, hlhs, s, id, hrelabels, hmem,
    (congrArg Prod.snd hkey).symm⟩

/-- A rule that relabels a constituent taken has one derivation from it. -/
theorem count_relabels {r : ListedRule} {s : Symbol} {id : Nat}
    (hrelabels : Relabels l gs i j r s) (hmem : (s, id) ∈ taken) :
    ∃ k c, (r.rule.lhs, k) ∈ f'.cellAt i j ∧ f'.constituents[k]? = some c
      ∧ c.derivations.toList.countP
          (fun d => d.rule = r ∧ d.antecedents = [id]) = 1 := by
  have hne := Nat.ne_of_lt hij
  have hd : (⟨r, [id], .zero⟩ : Derivation)
      ∈ unaryAt l (gs.map (·.view v)) i j taken :=
    (mem_unaryAt_iff hne).2 ⟨r, s, id, hrelabels, hmem, rfl⟩
  obtain ⟨k, hk⟩ := hrec.exists_mem hd
  obtain ⟨c, hc, hlhs, hstart, hstop⟩ := hrec.sound.listed.1 hk
  refine ⟨k, c, hk, hc, ?_⟩
  obtain ⟨new, hnew, -, hcollects⟩ := exists_added h hij hj hapart hrec hc
  obtain ⟨hnodup, hcollects⟩ := hcollects ⟨hstart, hstop⟩
  -- there is one with the key of the rule, and it has the rule
  have hkey := (hcollects.mem_keys (r.id, [id])).2
    (List.mem_map.2 ⟨_, Forest.mem_withLhs.2 ⟨hd, hlhs.symm⟩, rfl⟩)
  obtain ⟨e, he, hekey⟩ := List.mem_map.1 hkey
  have herule : e.rule = r := by
    obtain ⟨d, hd', -, hrule⟩ := hcollects.rule e he
    obtain ⟨r', s', id', ⟨-, -, g', hg', -, hr'⟩, -, rfl⟩ :=
      (mem_unaryAt_iff hne).1 (Forest.mem_withLhs.1 hd').1
    obtain ⟨-, -, g, hg, -, hr⟩ := hrelabels
    have hid : e.rule.id = r.id := congrArg Prod.fst hekey
    rw [← hrule] at hid ⊢
    exact (hapart.rule_unique hg' hg hr' hr hid).2
  have hants : e.antecedents = [id] := congrArg Prod.snd hekey
  have hmem : e ∈ c.derivations.toList :=
    hnew ▸ List.mem_append_right _ he
  refine Nat.le_antisymm ?_
    (List.countP_pos_iff.2 ⟨e, hmem, by simp [herule, hants]⟩)
  calc c.derivations.toList.countP
        (fun d => d.rule = r ∧ d.antecedents = [id])
      ≤ c.derivations.toList.countP (·.key = (r.id, [id])) := by
        refine List.countP_mono_left fun d _ hd => ?_
        simp only [decide_eq_true_eq] at hd ⊢
        rw [Derivation.key, hd.1, hd.2]
    _ = (c.derivations.toList.map Derivation.key).count (r.id, [id]) := by
        rw [List.count, List.countP_map]
        exact List.countP_congr fun d _ => by simp
    _ ≤ 1 := List.nodup_iff_count_le_one.1 hnodup _

/-- What is over the span in the end can be had from what the items have
completed. -/
theorem relabelClosure_of_mem (hgrounded : f'.Grounded)
    (hsub : ∀ e ∈ taken, e ∈ f'.cellAt i j) {id : Nat} {s : Symbol}
    (hmem : (s, id) ∈ f'.cellAt i j) :
    RelabelClosure l gs i j (fun s => ∃ k, (s, k)
      ∈ (completedAt l (gs.map (·.view v)) x i j).forest.cellAt i j) s := by
  have hspan : Proper l (i, j) := ⟨hij, hj⟩
  have hsound := (records_completedAt (gs.map (·.view v)) h.fit
    (Nat.le_of_lt hij) hspan.le_nodeCount).sound
  induction id using Nat.strong_induction_on generalizing s with
  | h id ih =>
      obtain ⟨c, hc, rfl, -, -⟩ := hrec.sound.listed.1 hmem
      cases hold : (completedAt l (gs.map (·.view v)) x
          i j).forest.constituents[id]? with
      | some b =>
          have hb := hsound.mem_of_constituent hold
          obtain ⟨hlhs, hstart, hstop⟩ :=
            hrec.sound.span_eq (hrec.mem_cellAt hb) hmem
          rw [hlhs, hstart, hstop] at hb
          exact .base ⟨id, hb⟩
      | none =>
          -- all its derivations are new, the first from an earlier one
          obtain ⟨d, hfirst, hbefore⟩ := hgrounded id c hc
          obtain ⟨new, hnew, hadded⟩ :=
            relabels_of_added h hij hj hapart hrec hc
          have hnone : (completedAt l (gs.map (·.view v)) x
              i j).forest.derivationsOf id = [] := by
            unfold Forest.derivationsOf
            rw [hold]
            rfl
          rw [hnone, List.nil_append] at hnew
          have hd : d ∈ new := by
            rw [← hnew]
            rw [← Array.getElem?_toList] at hfirst
            exact List.mem_of_getElem? hfirst
          obtain ⟨-, -, hlhs, s', id', hrelabels, htaken, hants⟩ :=
            hadded d hd
          rw [← hlhs]
          exact .relabel (ih id' (hbefore id' (by simp [hants]))
            (hsub _ htaken)) hrelabels

/-- The closure is the least one and derives what it has to, once. -/
theorem closedLeast (hgrounded : f'.Grounded)
    (hperm : (f'.cellAt i j).Perm taken) :
    ClosedLeast l gs i j (completedAt l (gs.map (·.view v)) x i j).forest f'
      taken where
  once := by
    refine ⟨hperm.nodup_iff.1 ?_, fun e => hperm.mem_iff.symm⟩
    exact (hrec.sound.ascending i j).imp fun hlt heq =>
      absurd hlt (by simp [heq])
  least := by
    intro s
    constructor
    · rintro ⟨id, hid⟩
      exact relabelClosure_of_mem h hij hj hapart hrec hgrounded
        (fun e he => hperm.mem_iff.2 he) hid
    · intro hs
      induction hs with
      | base hbase =>
          obtain ⟨id, hid⟩ := hbase
          exact ⟨id, hrec.mem_cellAt hid⟩
      | relabel _ hrelabels ih =>
          obtain ⟨id, hid⟩ := ih
          obtain ⟨k, -, hk, -⟩ := count_relabels h hij hj hapart hrec hrelabels
            (hperm.mem_iff.1 hid)
          exact ⟨k, hk⟩
  derived := fun r s id hrelabels hmem =>
    count_relabels h hij hj hapart hrec hrelabels (hperm.mem_iff.1 hmem)
  added := by
    intro k c hc
    obtain ⟨new, hnew, hadded⟩ := relabels_of_added h hij hj hapart hrec hc
    refine ⟨new, hnew, fun d hd => ?_⟩
    obtain ⟨hstart, hstop, hlhs, s, id, hrelabels, htaken, hants⟩ := hadded d hd
    exact ⟨hstart, hstop, hlhs, s, id, hrelabels, hperm.mem_iff.2 htaken, hants⟩

omit hrec in
/-- Taking a span closes its cell. -/
theorem exists_closedLeast (hfounded : x.Founded) :
    let completed := completedAt l (gs.map (·.view v)) x i j
    let expanded := expandedCharts l (gs.map (·.view v)) x (i, j)
    let closed := closeUnary l expanded i j completed.forest completed.made
    ∃ taken, Drains l expanded i j completed.made ⟨completed.forest, [], 0⟩
        taken closed
      ∧ ClosedLeast l gs i j completed.forest closed.forest taken := by
  intro completed expanded closed
  have hspan : Proper l (i, j) := ⟨hij, hj⟩
  have hle := Nat.le_of_lt hij
  obtain ⟨taken, hdrains, hforest, hperm⟩ :=
    forest_next_taken h.fit (roomy gs v) hle hspan.le_nodeCount h.cell
  have hcompleted := records_completedAt (gs.map (·.view v)) h.fit hle
    hspan.le_nodeCount
  have hrec := records_recordAll hcompleted.sound hle
    (by rw [hcompleted.max_eq, h.fit.max]; exact hspan.le_nodeCount)
    (unaryAt l (gs.map (·.view v)) i j taken)
  have hgrounded : (x.next l (gs.map (·.view v)) (i, j)).forest.Grounded :=
    (hfounded.next h.fit hle hspan.le_nodeCount).grounded
  rw [← hforest] at hrec
  rw [forest_next] at hrec hgrounded hperm
  exact ⟨taken, hdrains, closedLeast h hij hj hapart hrec hgrounded hperm⟩

end

end Charting

-- ========================================================= the theorem

open GrammarContents in
/-- A parse with the grammars of given numbers comes to its end. Whenever it
takes a span, the cell of the span is empty, and after the items over the span
have been completed the loop of the closure runs until its queue is empty,
whatever cycles the rules with a single nonterminal form. It takes every
constituent of the cell once; the cell ends with the least set of left-hand
sides that contains those which the items have completed and is closed under the
rules with a single nonterminal of the grammars that cover the span. Each of
these rules has one derivation from each constituent that it applies to, and no
other derivation is added. -/
theorem relabelling_closes_spans (l : Lattice)
    (contents : Nat → GrammarContents E) (ns : List Nat) (v : Vocabulary)
    (goal : Symbol) :
    ∃ start r,
      Parse.begin l (ns.map fun n => (numbered contents n).view v) = .ok start
      ∧ l.parse (ns.map fun n => (numbered contents n).view v) goal = .ok r
      ∧ r.parse = (Parse.order l).foldl (Parse.next l) start
      ∧ ∀ (ss ts : List (Nat × Nat)) (i j : Nat),
        Parse.order l = ss ++ (i, j) :: ts →
        let p := ss.foldl (Parse.next l) start
        let expanded :=
          mapCharts (fun g c => c.expand g l p.forest i j) p.charts
        let completed := recordAll i j p.forest (completions l expanded i j)
        let closed := closeUnary l expanded i j completed.forest completed.made
        p.forest.cellAt i j = []
        ∧ (Parse.next l p (i, j)).forest = closed.forest
        ∧ ∃ taken,
          Drains l expanded i j completed.made ⟨completed.forest, [], 0⟩ taken
            closed
          ∧ ClosedLeast l (ns.map (numbered contents)) i j completed.forest
              closed.forest taken := by
  let gs := ns.map (numbered contents)
  rw [map_view_numbered]
  obtain ⟨start, hstart⟩ := Charting.exists_begin l gs v
  obtain rfl := Charting.begin_eq hstart
  obtain ⟨passes, hparse⟩ := Charting.parse_eq hstart goal
  refine ⟨_, _, hstart, hparse, (Charting.toParse_foldl ..).symm,
    fun ss ts i j horder => ?_⟩
  have htaking := Charting.taking_of_order (gs.map (·.view v)) horder
  obtain ⟨hij, hj⟩ : i < j ∧ j ≤ l.sourceLength := mem_order.1
    (horder ▸ List.mem_append_right _ (List.mem_cons_self ..))
  have hproper : ∀ s ∈ ss, Charting.Proper l s := fun s hs =>
    Charting.proper_of_mem_order (horder ▸ List.mem_append_left _ hs)
  have hfounded : (ss.foldl (Charting.next l (gs.map (·.view v)))
      (Charting.seeded l)).Founded :=
    (Charting.founded_seeded l).foldl (Charting.fit_seeded l) hproper
  rw [Charting.toParse_foldl]
  generalize ss.foldl (Charting.next l (gs.map (·.view v)))
    (Charting.seeded l) = x at htaking hfounded
  intro p expanded completed closed
  have hexpanded : expanded
      = Charting.expandedCharts l (gs.map (·.view v)) x (i, j) :=
    Charting.mapCharts_map ..
  have hcompleted : completed
      = Charting.completedAt l (gs.map (·.view v)) x i j := by
    show recordAll i j x.forest (completions l expanded i j) = _
    rw [hexpanded]
    unfold Charting.completedAt
    rw [← Charting.completions_map]
    rfl
  refine ⟨htaking.cell, rfl, ?_⟩
  show ∃ taken, Drains l expanded i j completed.made ⟨completed.forest, [], 0⟩
    taken (closeUnary l expanded i j completed.forest completed.made)
    ∧ ClosedLeast l gs i j completed.forest
      (closeUnary l expanded i j completed.forest completed.made).forest taken
  rw [hexpanded, hcompleted]
  exact Charting.exists_closedLeast htaking hij hj
    (apart_numbered contents ns) hfounded

end LatticeParsing
