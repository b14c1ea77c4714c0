/-
Merging and flattening.

A position that has been merged, at however many levels, behaves like the
list of its places (`NestedPosition.Flattens`). All questions but one go down
to the places by induction on the position. The exception is that for the
rules, which were collected when the position was made, so positions are
taken as they are made (`NestedPosition.IsMade`): of at least two parts, and
with the rules that these had. From the former it follows that just the merged
ones have several places.

To follow a symbol and to flatten commute (`Flattens.follow?`), so they do
along a walk, by induction on the symbols (`flattens_nestedWalk?`). What a walk
finds there is that the rules collected together agree in their arity and
in the length of their source sides (`agree_of_collected`).
-/
import LatticeParsing.Grammar.Merging
import LatticeParsing.Proofs.Grammar.Nonterminals

namespace LatticeParsing

/-- A collection has the rules it was made of. -/
theorem RuleCollection.rules_ofRules? (rs : List ListedRule) :
    (ofRules? rs).toList.flatMap (·.rules) = rs := by
  cases rs <;> simp [ofRules?]

namespace NestedPosition

variable {n m : NestedPosition} {p : Position} {accepts : Symbol → Bool}
  {parts : List NestedPosition}

-- =============================================================== making

/-- The positions that can be made: places, and what is merged of at least
two that can be made. -/
inductive IsMade : NestedPosition → Prop
  | place (p : Place) : IsMade (.place p)
  | ofParts {parts : List NestedPosition} : 2 ≤ parts.length →
      (∀ q ∈ parts, q.IsMade) → IsMade (.ofParts parts)

theorem places_place (p : Place) : (place p).places = [p] := by
  rw [places]

theorem places_ofParts (parts : List NestedPosition) :
    (ofParts parts).places = parts.flatMap places := by
  rw [ofParts, places]

/-- There are at least as many places as parts. -/
theorem length_le_places (h : ∀ q ∈ parts, 1 ≤ q.places.length) :
    parts.length ≤ (parts.flatMap places).length := by
  induction parts with
  | nil => exact Nat.le_refl 0
  | cons q parts ih =>
      have hq := h q (List.mem_cons_self ..)
      have hparts := ih fun r hr => h r (List.mem_cons_of_mem _ hr)
      rw [List.flatMap_cons, List.length_append, List.length_cons]
      omega

theorem IsMade.length_pos (h : n.IsMade) : 1 ≤ n.places.length := by
  induction h with
  | place p => simp [places_place]
  | @ofParts parts hlen _ ih =>
      rw [places_ofParts]
      exact (Nat.le_of_succ_le hlen).trans (length_le_places ih)

/-- Just the merged positions have several places. -/
theorem IsMade.isMerged_iff (h : n.IsMade) :
    n.isMerged = true ↔ 2 ≤ n.places.length := by
  cases h with
  | place p => simp [isMerged, places_place]
  | @ofParts parts hlen hparts =>
      refine iff_of_true rfl ?_
      rw [places_ofParts]
      exact hlen.trans (length_le_places fun q hq => (hparts q hq).length_pos)

/-- A position has collected the rules of its places. -/
theorem IsMade.collection?_eq (h : n.IsMade) :
    n.collection?
      = RuleCollection.ofRules? (n.places.flatMap fun q => q.node.rules) := by
  induction h with
  | place p => simp [collection?, places_place]
  | @ofParts parts _ _ ih =>
      rw [places_ofParts, List.flatMap_assoc]
      show RuleCollection.ofRules? _ = _
      rw [List.filterMap_eq_flatMap_toList, List.flatMap_assoc]
      congr 1
      refine List.flatMap_congr fun q hq => ?_
      rw [ih q hq, RuleCollection.rules_ofRules?]

-- =========================================================== flattening

theorem hasExtensions_eq (n : NestedPosition) :
    n.hasExtensions = n.places.any fun q => !q.node.edges.isEmpty := by
  induction n using hasExtensions.induct with
  | case1 p => simp [hasExtensions, places_place]
  | case2 parts collected ih =>
      rw [hasExtensions, places, List.any_flatMap, List.any_map,
        Bool.eq_iff_iff, List.any_eq_true, List.any_eq_true]
      refine exists_congr fun m => and_congr_right fun hm => ?_
      rw [Function.comp_apply, id_eq, ih m hm]

theorem mem_labels {s : Symbol} :
    s ∈ n.labels ↔ ∃ q ∈ n.places, s ∈ q.node.labels := by
  induction n using labels.induct with
  | case1 p => simp [labels, places_place]
  | case2 parts collected ih =>
      rw [labels, places, Symbol.mem_sorted]
      simp only [List.mem_flatMap]
      constructor
      · rintro ⟨m, hm, hs⟩
        obtain ⟨q, hq, hs⟩ := (ih m hm).1 hs
        exact ⟨q, ⟨m, hm, hq⟩, hs⟩
      · rintro ⟨q, ⟨m, hm, hq⟩, hs⟩
        exact ⟨m, hm, (ih m hm).2 ⟨q, hq, hs⟩⟩

/-- The labels ascend if they do at every place. -/
theorem ascending_labels
    (h : ∀ q ∈ n.places, q.node.labels.Pairwise (· < ·)) :
    n.labels.Pairwise (· < ·) := by
  cases n with
  | place p =>
      rw [labels]
      exact h p (by simp [places_place])
  | merged parts collected =>
      rw [labels]
      exact Symbol.ascending_sorted _

-- ============================================================ following

theorem IsMade.merge? (h : ∀ q ∈ parts, q.IsMade)
    (hn : NestedPosition.merge? parts = some n) : n.IsMade := by
  match parts with
  | [] => cases hn
  | [q] =>
      cases hn
      exact h n (List.mem_singleton_self n)
  | q :: r :: parts =>
      cases hn
      exact .ofParts (by simp) h

/-- What is merged has the places of its parts. -/
theorem places_merge? (parts : List NestedPosition) :
    (merge? parts).toList.flatMap places = parts.flatMap places := by
  match parts with
  | [] => rfl
  | [q] => rfl
  | q :: r :: parts =>
      show [ofParts (q :: r :: parts)].flatMap places = _
      rw [List.flatMap_singleton, places_ofParts]

theorem IsMade.follow? (h : n.IsMade)
    (hm : n.follow? accepts = some m) : m.IsMade := by
  induction h generalizing m with
  | place p =>
      rw [NestedPosition.follow?] at hm
      refine IsMade.merge? (fun q hq => ?_) hm
      obtain ⟨r, -, rfl⟩ := List.mem_map.1 hq
      exact .place r
  | @ofParts parts _ _ ih =>
      rw [NestedPosition.ofParts, NestedPosition.follow?] at hm
      refine IsMade.merge? (fun q hq => ?_) hm
      obtain ⟨q?, hfound, rfl⟩ := List.mem_filterMap.1 hq
      obtain ⟨r, hr, hq⟩ := List.mem_map.1 hfound
      exact ih r hr hq

/-- A symbol leads to the places behind all places, in order. -/
theorem places_follow? (accepts : Symbol → Bool) (n : NestedPosition) :
    (n.follow? accepts).toList.flatMap places
      = n.places.flatMap (Place.follow accepts) := by
  induction n using follow?.induct with
  | case1 p =>
      rw [follow?, places_merge?, places_place, List.flatMap_map,
        List.flatMap_singleton]
      simp [places_place]
  | case2 parts collected ih =>
      rw [follow?, places_merge?, places, List.flatMap_assoc,
        List.filterMap_eq_flatMap_toList, List.flatMap_assoc,
        List.flatMap_map]
      exact List.flatMap_congr ih

-- ============================================================= agreement

/-- Whether a position lists the places of one that can be made. -/
structure Flattens (n : NestedPosition) (p : Position) : Prop where
  made : n.IsMade
  places_eq : n.places = p.places

namespace Flattens

theorem root (t : Trie) : Flattens (.place ⟨[], t⟩) (.root t) :=
  ⟨.place _, places_place _⟩

theorem isMerged_eq (h : n.Flattens p) : n.isMerged = p.isMerged := by
  rw [Bool.eq_iff_iff, h.made.isMerged_iff, h.places_eq]
  obtain ⟨first, others⟩ := p
  cases others <;> simp [Position.places, Position.isMerged]

theorem collection?_eq (h : n.Flattens p) :
    n.collection? = RuleCollection.ofRules? p.rules := by
  rw [h.made.collection?_eq, h.places_eq]
  rfl

theorem hasExtensions_eq (h : n.Flattens p) :
    n.hasExtensions = p.hasExtensions := by
  rw [NestedPosition.hasExtensions_eq, h.places_eq]
  rfl

theorem labels_eq (h : n.Flattens p)
    (hp : ∀ q ∈ p.places, q.node.labels.Pairwise (· < ·)) :
    n.labels = p.labels := by
  have hn := ascending_labels (h.places_eq ▸ hp)
  refine hn.eq_of_mem_iff (Symbol.ascending_sorted _) fun s => ?_
  rw [mem_labels, h.places_eq]
  exact Position.mem_labels.symm

theorem nonterminals_eq (h : n.Flattens p)
    (hp : ∀ q ∈ p.places, q.node.labels.Pairwise (· < ·)) :
    n.nonterminals = p.nonterminals := by
  have hmerged := h.isMerged_eq
  unfold Position.nonterminals
  rw [← hmerged, ← h.labels_eq hp]
  cases n with
  | merged parts collected => rfl
  | place q =>
      have hq := h.places_eq
      rw [places_place] at hq
      have hfirst : p.first = q := (List.cons.inj hq).1.symm
      rw [hfirst]
      rfl

/-- To follow a symbol and to flatten commute. -/
theorem follow? (h : n.Flattens p) (accepts : Symbol → Bool) :
    Option.Rel Flattens (n.follow? accepts) (p.follow? accepts) := by
  have hplaces := places_follow? accepts n
  rw [h.places_eq] at hplaces
  unfold Position.follow?
  rw [← hplaces]
  cases hm : n.follow? accepts with
  | none => exact .none
  | some m =>
      have hmade := h.made.follow? hm
      have hpos := hmade.length_pos
      rw [Option.toList_some, List.flatMap_singleton]
      cases hfound : m.places with
      | nil => simp [hfound] at hpos
      | cons q qs => exact .some ⟨hmade, hfound⟩

end Flattens

end NestedPosition

open NestedPosition

namespace GrammarContents

variable {E : PatternEngine} {g : GrammarContents E} {v : Vocabulary}
  {symbols : List Symbol} {p : Position}

/-- To walk and to flatten commute. -/
theorem flattens_nestedWalk? (g : GrammarContents E) (v : Vocabulary)
    (symbols : List Symbol) :
    Option.Rel Flattens (g.grammar.nestedWalk? v symbols)
      ((g.view v).walk? symbols) := by
  have key : ∀ {n : NestedPosition} {p : Position}, n.Flattens p →
      Option.Rel Flattens
        (symbols.foldlM (fun n s => n.follow? fun label =>
          g.grammar.matching.accepts v label s) n)
        (symbols.foldlM (g.view v).follow? p) := by
    induction symbols with
    | nil => exact fun h => .some h
    | cons s symbols ih =>
        intro n p h
        have hstep := h.follow? fun label =>
          g.grammar.matching.accepts v label s
        rw [List.foldlM_cons, List.foldlM_cons]
        show Option.Rel _ ((n.follow? _).bind _) ((p.follow? _).bind _)
        generalize n.follow? _ = n?, p.follow? _ = p? at hstep ⊢
        cases hstep with
        | none => exact .none
        | some hnext => exact ih hnext
  exact key (.root _)

/-- A label and what it accepts are both nonterminals or both terminals. -/
theorem Accepts.isNonterminal_eq {s a : Symbol} (h : g.Accepts v s a) :
    s.isNonterminal = a.isNonterminal := by
  by_cases ha : 0 ≤ a
  · rw [Symbol.isNonterminal_eq_false.2 ha,
      Symbol.isNonterminal_eq_false.2 (h.nonneg ha)]
  · rw [(accepts_nonterminal (not_le.1 ha)).1 h]

/-- So a source side has as many nonterminals as the symbols it accepts. -/
theorem countP_of_accepts {source : List Symbol}
    (h : List.Forall₂ (g.Accepts v) source symbols) :
    source.countP Symbol.isNonterminal
      = symbols.countP Symbol.isNonterminal := by
  induction h with
  | nil => rfl
  | cons hs _ ih =>
      rw [List.countP_cons, List.countP_cons, ih, hs.isNonterminal_eq]

/-- Where labels accept themselves, a source side is what it accepts. -/
theorem eq_of_accepts {source : List Symbol}
    (hmode : g.options.labelPatterns = false)
    (h : List.Forall₂ (g.Accepts v) source symbols) : source = symbols := by
  unfold Accepts at h
  simpa [hmode, List.forall₂_eq_eq_eq] using h

/-- The rules collected at the end of a walk are those of its places. -/
theorem rules_of_collected {n : NestedPosition} {c : RuleCollection}
    (hn : g.grammar.nestedWalk? v symbols = some n)
    (hc : n.collection? = some c) :
    ∃ p r rs, (g.view v).walk? symbols = some p ∧ p.rules = r :: rs
      ∧ c = ⟨r :: rs, r.rule.arity, r.rule.source⟩ := by
  have hrel := g.flattens_nestedWalk? v symbols
  rw [hn] at hrel
  cases hp : (g.view v).walk? symbols with
  | none =>
      rw [hp] at hrel
      cases hrel
  | some p =>
      rw [hp] at hrel
      cases hrel with
      | some h =>
          rw [h.collection?_eq] at hc
          cases hrules : p.rules with
          | nil => simp [hrules, RuleCollection.ofRules?] at hc
          | cons r rs =>
              rw [hrules] at hc
              exact ⟨p, r, rs, rfl, hrules, (Option.some.inj hc).symm⟩

end GrammarContents

/-- In every grammar, whatever calls it was built by, and whether its labels
are patterns or not, symbols lead to a merged position just if they lead to
the list of its places, however deep the merging goes; and the two agree in
being merged, in the rules collected, in having extensions, in the labels, and
in the nonterminals. -/
theorem merging_is_flat (E : PatternEngine) (number : Nat)
    (options : GrammarOptions) (calls : List DraftCall)
    (spellings v : Vocabulary) (symbols : List Symbol) :
    let g := (GrammarDraft.ofCalls number options calls).finish spellings E
    Option.Rel
      (fun n p => n.places = p.places
        ∧ n.isMerged = p.isMerged
        ∧ n.collection? = RuleCollection.ofRules? p.rules
        ∧ n.hasExtensions = p.hasExtensions
        ∧ n.labels = p.labels
        ∧ n.nonterminals = p.nonterminals)
      (g.nestedWalk? v symbols) ((g.view v).walk? symbols) := by
  intro g
  let contents : GrammarContents E := .ofCalls number options calls spellings
  have hg : contents.grammar = g := GrammarContents.grammar_ofCalls ..
  have hrel := contents.flattens_nestedWalk? v symbols
  unfold GrammarContents.view at hrel
  have hin := fun p => @GrammarContents.isIn_of_walk? _ p contents v symbols
  unfold GrammarContents.view at hin
  rw [hg] at hrel hin
  have ht : g.root.Ordered := hg ▸ contents.ordered_root
  generalize g.nestedWalk? v symbols = n?, (g.view v).walk? symbols = p?
    at hrel hin ⊢
  cases hrel with
  | none => exact .none
  | @some n p h =>
      have hplaces : ∀ q ∈ p.places, q.node.labels.Pairwise (· < ·) :=
        fun q hq => ht _ _ (hin p rfl q hq)
      exact .some ⟨h.places_eq, h.isMerged_eq, h.collection?_eq,
        h.hasExtensions_eq, h.labels_eq hplaces, h.nonterminals_eq hplaces⟩

/-- An engine finds every label in every word. Of the two parts that the
second word leads to, one is merged itself. -/
example :
    let g := (GrammarDraft.ofCalls 0 { labelPatterns := true }
        [.add ⟨-1, [1, 1], "r"⟩, .add ⟨-1, [2, 1], "s"⟩,
          .add ⟨-1, [2, 2], "t"⟩]).finish ⟨#["a", "b"], #["[A]"]⟩
      ⟨Unit, fun _ => some (), fun _ _ => true⟩
    (g.nestedWalk? ⟨#["a"], #[]⟩ [1, 1]).map (·.places.map (·.path))
      = some [[1, 1], [2, 1], [2, 2]] := by
  cbv

/-- Rules that are collected at one position agree with the collection: they
have its arity, which is the number of nonterminals on the way, and source
sides as long as the way. Where labels are no patterns, they all have the way
itself as their source side. -/
theorem collected_rules_agree (E : PatternEngine) (number : Nat)
    (options : GrammarOptions) (calls : List DraftCall)
    (spellings v : Vocabulary) (symbols : List Symbol) (n : NestedPosition)
    (c : RuleCollection)
    (hn : ((GrammarDraft.ofCalls number options calls).finish
      spellings E).nestedWalk? v symbols = some n)
    (hc : n.collection? = some c) :
    c.arity = symbols.countP Symbol.isNonterminal
      ∧ c.source.length = symbols.length
      ∧ ∀ r ∈ c.rules, r.rule.arity = c.arity
          ∧ r.rule.source.length = c.source.length
          ∧ (options.labelPatterns = false → r.rule.source = symbols) := by
  let contents : GrammarContents E := .ofCalls number options calls spellings
  have hg : contents.grammar
      = (GrammarDraft.ofCalls number options calls).finish spellings E :=
    GrammarContents.grammar_ofCalls ..
  rw [← hg] at hn
  obtain ⟨p, r, rs, hp, hrules, rfl⟩ := contents.rules_of_collected hn hc
  have haccepts : ∀ q ∈ r :: rs,
      List.Forall₂ (contents.Accepts v) q.rule.source symbols := fun q hq =>
    ((GrammarContents.mem_rules_of_walk? hp).1 (hrules ▸ hq)).2
  have hfirst := haccepts r (List.mem_cons_self ..)
  have harity := GrammarContents.countP_of_accepts hfirst
  refine ⟨harity, hfirst.length_eq, fun q hq => ⟨?_, ?_, fun hmode => ?_⟩⟩
  · exact (GrammarContents.countP_of_accepts (haccepts q hq)).trans harity.symm
  · exact (haccepts q hq).length_eq.trans hfirst.length_eq.symm
  · exact GrammarContents.eq_of_accepts hmode (haccepts q hq)

end LatticeParsing
