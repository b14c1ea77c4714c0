/-
Walking through a grammar.

A walk follows symbols from the root. `placesAlong` lists the places that it
reaches, and the walk fails where there are none (`walk?_eq`). The places
are exactly the nodes whose labels accept the symbols one by one, ascending
by those labels (`Reaches`): this is the invariant of the walk, kept by every
symbol (`Reaches.follow`).

So the rules at the end of a walk are those whose source side accepts the
symbols (`mem_rules_of_walk?`), each once (`nodup_rules_of_walk?`), and
every prefix of a source side can be walked (`isSome_walk?`).
-/
import LatticeParsing.Proofs.Grammar.Contents

namespace LatticeParsing

variable {E : PatternEngine}

-- ============================================================ positions

namespace Position

theorem ofPlaces?_eq_some {ps : List Place} {p : Position} :
    ofPlaces? ps = some p ↔ ps = p.places := by
  cases ps with
  | nil => simp [ofPlaces?, places]
  | cons q ps =>
      obtain ⟨first, others⟩ := p
      simp [ofPlaces?, places]

theorem isSome_ofPlaces? {ps : List Place} :
    (ofPlaces? ps).isSome ↔ ∃ q, q ∈ ps := by
  cases ps with
  | nil => simp [ofPlaces?]
  | cons q ps => exact iff_of_true rfl ⟨q, List.mem_cons_self ..⟩

theorem mem_rules {p : Position} {r : ListedRule} :
    r ∈ p.rules ↔ ∃ q ∈ p.places, r ∈ q.node.rules :=
  List.mem_flatMap

theorem mem_labels {p : Position} {s : Symbol} :
    s ∈ p.labels ↔ ∃ q ∈ p.places, s ∈ q.node.labels := by
  unfold labels
  rw [Symbol.mem_sorted, List.mem_flatMap]

/-- A position that a symbol leads away from has extensions. -/
theorem hasExtensions_of_follow? {p q : Position} {accepts : Symbol → Bool}
    (h : p.follow? accepts = some q) : p.hasExtensions = true := by
  have hplaces := ofPlaces?_eq_some.1 h
  have hfirst : q.first ∈ p.places.flatMap (Place.follow accepts) := by
    rw [hplaces]
    exact List.mem_cons_self ..
  obtain ⟨place, hplace, hmem⟩ := List.mem_flatMap.1 hfirst
  obtain ⟨e, he, -⟩ := List.mem_filterMap.1 hmem
  unfold hasExtensions
  rw [List.any_eq_true]
  refine ⟨place, hplace, ?_⟩
  cases hedges : place.node.edges with
  | nil =>
      rw [hedges] at he
      cases he
  | cons e es => rfl

end Position

-- ================================================================ lists

/-- Lists of the same length compare as they did before each got one more
element at its end. -/
theorem concat_lt_concat {xs ys : List Symbol} (h : xs < ys)
    (hlen : xs.length = ys.length) (a b : Symbol) :
    xs ++ [a] < ys ++ [b] := by
  induction xs generalizing ys with
  | nil =>
      cases ys with
      | nil => exact absurd h (List.not_lt_nil [])
      | cons y ys => cases hlen
  | cons x xs ih =>
      cases ys with
      | nil => cases hlen
      | cons y ys =>
          rw [List.cons_append, List.cons_append, List.cons_lt_cons_iff]
          rcases List.cons_lt_cons_iff.1 h with hlt | ⟨rfl, hlt⟩
          · exact Or.inl hlt
          · exact Or.inr ⟨rfl, ih hlt (Nat.succ.inj hlen)⟩

/-- Matching a list with one more element at the end. -/
theorem forall₂_concat_right {R : Symbol → Symbol → Prop}
    {path labels : List Symbol} {a : Symbol} :
    List.Forall₂ R path (labels ++ [a])
      ↔ ∃ front s, path = front ++ [s] ∧ List.Forall₂ R front labels
          ∧ R s a := by
  constructor
  · intro h
    have hrev := List.forall₂_reverse_iff.2 h
    rw [List.reverse_append, List.reverse_singleton, List.singleton_append,
      List.forall₂_cons_right_iff] at hrev
    obtain ⟨s, back, hs, hback, hpath⟩ := hrev
    refine ⟨back.reverse, s, ?_, ?_, hs⟩
    · rw [← List.reverse_reverse path, hpath, List.reverse_cons]
    · rwa [← List.forall₂_reverse_iff, List.reverse_reverse]
  · intro h'
    obtain ⟨front, s, rfl, hfront, hs⟩ := h'
    exact List.rel_append hfront (.cons hs .nil)

-- =============================================================== places

/-- The places are those that the symbols lead to: the nodes whose labels
accept them one by one, in the order of these labels. -/
structure Reaches (t : Trie) (accepts : Symbol → Symbol → Bool)
    (symbols : List Symbol) (ps : List Place) : Prop where
  mem : ∀ q, q ∈ ps ↔ t.at? q.path = some q.node
    ∧ List.Forall₂ (fun s a => accepts s a = true) q.path symbols
  ascending : (ps.map (·.path)).Pairwise (· < ·)

namespace Reaches

variable {t : Trie} {accepts : Symbol → Symbol → Bool}
  {symbols : List Symbol} {ps : List Place}

theorem root (t : Trie) (accepts : Symbol → Symbol → Bool) :
    Reaches t accepts [] [⟨[], t⟩] where
  mem := by
    intro q
    obtain ⟨path, u⟩ := q
    rw [List.mem_singleton, List.forall₂_nil_right_iff]
    constructor
    · intro h
      injection h with hpath hu
      subst hpath hu
      exact ⟨rfl, rfl⟩
    · intro h'
      obtain ⟨hu, rfl⟩ := h'
      injection hu with hu
      rw [hu]
  ascending := List.pairwise_singleton ..

theorem mem_follow {accepts : Symbol → Bool} {p q : Place} :
    q ∈ p.follow accepts ↔ ∃ s u, (s, u) ∈ p.node.edges
      ∧ accepts s = true ∧ q = ⟨p.path ++ [s], u⟩ := by
  unfold Place.follow
  simp only [List.mem_filterMap, Prod.exists, Option.ite_none_right_eq_some,
    Option.some.injEq]
  refine exists_congr fun s => exists_congr fun u => and_congr_right fun _ =>
    and_congr_right fun _ => eq_comm

/-- One symbol more. -/
theorem follow (h : Reaches t accepts symbols ps) (ht : t.Ordered)
    (a : Symbol) :
    Reaches t accepts (symbols ++ [a])
      (ps.flatMap (Place.follow fun s => accepts s a)) where
  mem := by
    intro q
    rw [List.mem_flatMap, forall₂_concat_right]
    constructor
    · intro h'
      obtain ⟨p, hp, hq⟩ := h'
      obtain ⟨s, u, hedge, hs, rfl⟩ := mem_follow.1 hq
      obtain ⟨hat, hpath⟩ := (h.mem p).1 hp
      exact ⟨ht.at?_concat.2 ⟨_, hat, hedge⟩, p.path, s, rfl, hpath, hs⟩
    · intro h'
      obtain ⟨hat, front, s, hpath, hfront, hs⟩ := h'
      rw [hpath] at hat
      obtain ⟨u, hu, hedge⟩ := ht.at?_concat.1 hat
      refine ⟨⟨front, u⟩, (h.mem _).2 ⟨hu, hfront⟩,
        mem_follow.2 ⟨s, q.node, hedge, hs, ?_⟩⟩
      obtain ⟨path, node⟩ := q
      subst hpath
      rfl
  ascending := by
    rw [List.map_flatMap, List.pairwise_flatMap]
    constructor
    · intro p hp
      have hlabels := ht _ _ ((h.mem p).1 hp).1
      rw [List.pairwise_map, Place.follow, List.pairwise_filterMap]
      refine (List.pairwise_map.1 hlabels).imp fun hlt q hq q' hq' => ?_
      simp only [Option.ite_none_right_eq_some, Option.some.injEq] at hq hq'
      obtain ⟨-, rfl⟩ := hq
      obtain ⟨-, rfl⟩ := hq'
      exact List.append_left_lt (List.cons_lt_cons_iff.2 (Or.inl hlt))
    · refine (List.pairwise_map.1 h.ascending).imp_of_mem
        fun {p p'} hp hp' hlt path hpath path' hpath' => ?_
      obtain ⟨q, hq, rfl⟩ := List.mem_map.1 hpath
      obtain ⟨q', hq', rfl⟩ := List.mem_map.1 hpath'
      obtain ⟨s, u, -, -, rfl⟩ := mem_follow.1 hq
      obtain ⟨s', u', -, -, rfl⟩ := mem_follow.1 hq'
      -- both paths are as long as the symbols, so they differ before the labels
      have hlen := ((h.mem p).1 hp).2.length_eq
      have hlen' := ((h.mem p').1 hp').2.length_eq
      exact concat_lt_concat hlt (hlen.trans hlen'.symm) s s'

theorem foldl (h : Reaches t accepts symbols ps) (ht : t.Ordered)
    (more : List Symbol) :
    Reaches t accepts (symbols ++ more)
      (more.foldl (fun ps a => ps.flatMap (Place.follow fun s => accepts s a))
        ps) := by
  induction more generalizing symbols ps with
  | nil => rwa [List.append_nil]
  | cons a more ih =>
      have hstep := ih (h.follow ht a)
      rwa [List.append_assoc] at hstep

end Reaches

-- ================================================================ walks

/-- The position that symbols lead to from the root. -/
def GrammarView.walk? (g : GrammarView) (symbols : List Symbol) :
    Option Position :=
  g.root?.bind fun root => symbols.foldlM g.follow? root

theorem GrammarView.walk?_concat (g : GrammarView) (symbols : List Symbol)
    (a : Symbol) :
    g.walk? (symbols ++ [a]) = (g.walk? symbols).bind (g.follow? · a) := by
  unfold walk?
  cases g.root? with
  | none => rfl
  | some root =>
      simp only [Option.bind_some, List.foldlM_append, List.foldlM_cons,
        List.foldlM_nil]
      cases symbols.foldlM g.follow? root with
      | none => rfl
      | some p => simp

theorem GrammarView.walk?_singleton (g : GrammarView) (a : Symbol) :
    g.walk? [a] = g.root?.bind (g.follow? · a) := by
  have h := g.walk?_concat [] a
  rw [List.nil_append] at h
  rw [h]
  congr 1
  unfold walk?
  cases g.root? <;> rfl

namespace GrammarContents

variable {g : GrammarContents E} {v : Vocabulary} {symbols path : List Symbol}
  {p : Position} {r : ListedRule}

/-- The places that symbols lead to from the root. -/
def placesAlong (g : GrammarContents E) (v : Vocabulary)
    (symbols : List Symbol) : List Place :=
  symbols.foldl
    (fun ps a => ps.flatMap
      (Place.follow fun s => g.grammar.matching.accepts v s a))
    [⟨[], g.grammar.root⟩]

theorem reaches_placesAlong (g : GrammarContents E) (v : Vocabulary)
    (symbols : List Symbol) :
    Reaches g.grammar.root (g.grammar.matching.accepts v) symbols
      (g.placesAlong v symbols) :=
  (Reaches.root g.grammar.root (g.grammar.matching.accepts v)).foldl
    g.ordered_root symbols

/-- A walk leads to the position at the places that it reaches. -/
theorem walk?_eq (g : GrammarContents E) (v : Vocabulary)
    (symbols : List Symbol) :
    (g.view v).walk? symbols
      = Position.ofPlaces? (g.placesAlong v symbols) := by
  have key : ∀ (symbols : List Symbol) (ps : List Place),
      (Position.ofPlaces? ps).bind (symbols.foldlM (g.view v).follow?)
        = Position.ofPlaces? (symbols.foldl (fun ps a =>
            ps.flatMap (Place.follow fun s => g.grammar.matching.accepts v s a))
            ps) := by
    intro symbols
    induction symbols with
    | nil =>
        intro ps
        cases ps <;> rfl
    | cons a symbols ih =>
        intro ps
        rw [List.foldl_cons, ← ih]
        cases ps with
        | nil => rfl
        | cons q ps => rfl
  exact key symbols [⟨[], g.grammar.root⟩]

theorem places_of_walk? (h : (g.view v).walk? symbols = some p) :
    Reaches g.grammar.root (g.grammar.matching.accepts v) symbols p.places := by
  rw [walk?_eq, Position.ofPlaces?_eq_some] at h
  exact h ▸ g.reaches_placesAlong v symbols

/-- The rules at a place of a walk are those whose source side leads there. -/
theorem rules_of_mem_places (h : (g.view v).walk? symbols = some p)
    {q : Place} (hq : q ∈ p.places) :
    q.node.rules = g.listed.filter fun r => r.rule.source = q.path := by
  obtain ⟨hat, -⟩ := ((places_of_walk? h).mem q).1 hq
  rw [← rulesAt_root, Trie.rulesAt, hat]

/-- The symbols that can be walked are those that the labels on the way to
some node accept. -/
theorem isSome_walk? :
    ((g.view v).walk? symbols).isSome
      ↔ ∃ path, (path = [] ∨ ∃ r ∈ g.listed, path <+: r.rule.source)
          ∧ List.Forall₂ (g.Accepts v) path symbols := by
  have hreach := g.reaches_placesAlong v symbols
  rw [walk?_eq, Position.isSome_ofPlaces?]
  constructor
  · intro h
    obtain ⟨q, hq⟩ := h
    obtain ⟨hat, hpath⟩ := (hreach.mem q).1 hq
    have hsome := Option.isSome_of_eq_some hat
    exact ⟨q.path, g.isSome_at?_root.1 hsome,
      (forall₂_accepts_matching hsome).1 hpath⟩
  · intro h
    obtain ⟨path, hsome, hpath⟩ := h
    have hsome := g.isSome_at?_root.2 hsome
    obtain ⟨u, hu⟩ := Option.isSome_iff_exists.1 hsome
    exact ⟨⟨path, u⟩, (hreach.mem _).2
      ⟨hu, (forall₂_accepts_matching hsome).2 hpath⟩⟩

/-- The rules at the end of a walk are those whose source side accepts the
symbols. -/
theorem mem_rules_of_walk? (h : (g.view v).walk? symbols = some p) :
    r ∈ p.rules ↔ r ∈ g.listed
      ∧ List.Forall₂ (g.Accepts v) r.rule.source symbols := by
  have hreach := places_of_walk? h
  rw [Position.mem_rules]
  constructor
  · intro h'
    obtain ⟨q, hq, hr⟩ := h'
    obtain ⟨hat, hpath⟩ := (hreach.mem q).1 hq
    rw [rules_of_mem_places h hq, List.mem_filter, decide_eq_true_eq] at hr
    obtain ⟨hlisted, hsource⟩ := hr
    rw [hsource]
    exact ⟨hlisted,
      (forall₂_accepts_matching (Option.isSome_of_eq_some hat)).1 hpath⟩
  · intro h'
    obtain ⟨hlisted, hsource⟩ := h'
    have hsome := g.isSome_at?_root.2
      (Or.inr ⟨r, hlisted, List.prefix_refl r.rule.source⟩)
    obtain ⟨u, hu⟩ := Option.isSome_iff_exists.1 hsome
    refine ⟨⟨r.rule.source, u⟩, (hreach.mem _).2
      ⟨hu, (forall₂_accepts_matching hsome).2 hsource⟩, ?_⟩
    have hrules : r ∈ g.grammar.root.rulesAt r.rule.source := by
      rw [rulesAt_root, List.mem_filter]
      exact ⟨hlisted, by simp⟩
    unfold Trie.rulesAt at hrules
    rwa [hu] at hrules

/-- No rule stands twice at the end of a walk, whatever places have been
merged. -/
theorem nodup_rules_of_walk? (h : (g.view v).walk? symbols = some p) :
    p.rules.Nodup := by
  unfold Position.rules
  rw [List.nodup_flatMap]
  constructor
  · intro q hq
    rw [rules_of_mem_places h hq]
    exact g.nodup_listed.filter _
  · refine (List.pairwise_map.1 (places_of_walk? h).ascending).imp_of_mem
      fun {q q'} hq hq' hlt => ?_
    show List.Disjoint q.node.rules q'.node.rules
    rw [rules_of_mem_places h hq, rules_of_mem_places h hq']
    intro r hr hr'
    simp only [List.mem_filter, decide_eq_true_eq] at hr hr'
    rw [← hr.2, ← hr'.2] at hlt
    exact List.lt_irrefl _ hlt

/-- A rule whose source side accepts the symbols is reached along them. -/
theorem exists_walk? (hr : r ∈ g.listed)
    (hsource : List.Forall₂ (g.Accepts v) r.rule.source symbols) :
    ∃ p, (g.view v).walk? symbols = some p ∧ r ∈ p.rules := by
  have hsome := isSome_walk?.2
    ⟨_, Or.inr ⟨r, hr, List.prefix_refl r.rule.source⟩, hsource⟩
  obtain ⟨p, hp⟩ := Option.isSome_iff_exists.1 hsome
  exact ⟨p, hp, (mem_rules_of_walk? hp).2 ⟨hr, hsource⟩⟩

/-- A rule with a single nonterminal is reached along it. -/
theorem exists_walk?_unary {s : Symbol} (hr : r ∈ g.listed) (hs : s < 0)
    (hsource : r.rule.source = [s]) :
    ∃ p, (g.view v).walk? [s] = some p ∧ r ∈ p.rules := by
  refine exists_walk? hr ?_
  rw [hsource]
  exact .cons ((accepts_nonterminal hs).2 rfl) .nil

end GrammarContents

end LatticeParsing
