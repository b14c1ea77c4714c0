/-
Which words an edge accepts where labels are patterns.

The patterns are those of the engine that runs. An edge is followed for a word
if its label, read as a pattern on its own, spans the word from end to end; if
the label is no pattern, the edge is followed for the label itself
(`edges_match_whole_words`). This is so for each label that is a pattern
between anchors exactly if it is one on its own. Not all labels are of this
kind: one that is no pattern can close the group that it is set in, and its
edge is then followed for other words (`pasted_label_escapes`).
-/
import LatticeParsing.Proofs.Grammar.Walks
import LatticeParsing.Proofs.Pattern.Anchored

namespace LatticeParsing

open Pattern (read?)
open LabelPattern (anchored)

variable {E : PatternEngine} {g : GrammarContents E} {v : Vocabulary}
  {p : Position} {path : List Symbol} {node child : Trie} {s a : Symbol}
  {label word : String}

/-- The label of an edge in the tree is one of the labels of the tree. -/
theorem GrammarContents.mem_allLabels_of_edge
    (hnode : g.grammar.root.at? path = some node)
    (hedge : (s, child) ∈ node.edges) : s ∈ g.grammar.root.allLabels := by
  have hchild : g.grammar.root.at? (path ++ [s]) = some child :=
    g.ordered_root.at?_concat.2 ⟨node, hnode, hedge⟩
  exact Trie.mem_allLabels hchild s List.mem_concat_self

/-- An edge that leaves a place of a position is followed if its label accepts
the symbol. -/
theorem mem_places_follow? {m : Grammar} (hplace : ⟨path, node⟩ ∈ p.places)
    (hedge : (s, child) ∈ node.edges) :
    (∃ q, m.follow? v p a = some q ∧ ⟨path ++ [s], child⟩ ∈ q.places)
      ↔ m.matching.accepts v s a = true := by
  constructor
  · rintro ⟨q, hq, hmem⟩
    rw [← Position.ofPlaces?_eq_some.1 hq] at hmem
    obtain ⟨r, -, hr⟩ := List.mem_flatMap.1 hmem
    obtain ⟨s', u, -, hs', heq⟩ := Reaches.mem_follow.1 hr
    injection heq with hpath hu
    obtain rfl : s = s' := by simpa using (List.append_inj' hpath rfl).2
    exact hs'
  · intro h
    have hmem : (⟨path ++ [s], child⟩ : Place)
        ∈ p.places.flatMap (Place.follow fun s => m.matching.accepts v s a) :=
      List.mem_flatMap.2
        ⟨⟨path, node⟩, hplace, Reaches.mem_follow.2 ⟨s, child, hedge, h, rfl⟩⟩
    obtain ⟨q, hq⟩ := Option.isSome_iff_exists.1
      (Position.isSome_ofPlaces?.2 ⟨_, hmem⟩)
    exact ⟨q, hq, Position.ofPlaces?_eq_some.1 hq ▸ hmem⟩

/-- Where terminal labels are patterns of the engine that runs, an edge whose
label is a pattern on its own and between anchors, or neither, is followed for
the words that the label's pattern spans from end to end, or for the label. -/
theorem edges_match_whole_words {g : GrammarContents .standard}
    (hmode : g.options.labelPatterns = true)
    (hnode : g.grammar.root.at? path = some node)
    (hplace : ⟨path, node⟩ ∈ p.places) (hedge : (s, child) ∈ node.edges)
    (hs : 0 ≤ s) (hlabel : g.spellings.word? s = some label)
    (ha : 0 ≤ a) (hword : v.word? a = some word)
    (hread : (read? label.toList).isSome
      = (read? (anchored label.toList)).isSome) :
    (∃ q, g.grammar.follow? v p a = some q ∧ ⟨path ++ [s], child⟩ ∈ q.places)
      ↔ (∃ r, read? label.toList = some r
          ∧ r.Spans word.toList 0 word.toList.length)
        ∨ (read? label.toList = none ∧ word = label) := by
  rw [mem_places_follow? hplace hedge, GrammarContents.accepts_matching
    (GrammarContents.mem_allLabels_of_edge hnode hedge)]
  unfold GrammarContents.Accepts
  rw [if_pos ⟨hmode, ha⟩, hlabel, hword]
  rw [← LabelPattern.accepts_ofLabel hread]
  constructor
  · rintro ⟨-, w, u, hw, hu, h⟩
    obtain rfl := Option.some.inj hw
    obtain rfl := Option.some.inj hu
    exact h
  · exact fun h => ⟨hs, label, word, rfl, rfl, h⟩

-- =============================================================== examples

/-- A grammar whose one rule has one terminal as its source side. -/
def singleEdge (label : String) : GrammarContents .standard :=
  ⟨0, { labelPatterns := true }, [⟨-1, [1], "t"⟩], ⟨#[label], #["[S]"]⟩⟩

/-- The node behind its edge. -/
def singleEdgeEnd : Trie := .node [⟨⟨0, 0⟩, ⟨-1, [1], "t"⟩⟩] []

theorem mem_edges_singleEdge (label : String) :
    (1, singleEdgeEnd) ∈ (singleEdge label).grammar.root.edges :=
  List.mem_singleton_self _

theorem edges_match_whole_words_walked :
    ∃ q, (singleEdge "walk(s|ed)?").grammar.follow?
        ⟨#["walk(s|ed)?", "walked"], #["[S]"]⟩
        (.root (singleEdge "walk(s|ed)?").grammar.root) 2 = some q
      ∧ ⟨[1], singleEdgeEnd⟩ ∈ q.places := by
  have hread : read? "walk(s|ed)?".toList
      = some (.cat (.literal "walk".toList)
          (.times (.group 1 (.alt (.literal ['s']) (.literal "ed".toList)))
            0 (some 1) false)) := by
    decide +kernel
  have hroot : (singleEdge "walk(s|ed)?").grammar.root.at? []
    = some (singleEdge "walk(s|ed)?").grammar.root := rfl
  refine (edges_match_whole_words rfl hroot (List.mem_singleton_self _)
    (mem_edges_singleEdge _) (by decide) rfl (by decide) rfl
    (by decide +kernel)).2 (Or.inl ⟨_, hread, 4, ?_, ?_⟩)
  · exact ⟨by decide, rfl⟩
  · refine ⟨1, by decide, fun m hm => ?_, 6, Or.inr ⟨by decide, rfl⟩, rfl⟩
    obtain rfl := Option.some.inj hm
    exact Or.inl (Nat.le_refl 1)

/-- The label is no pattern, but between anchors it is one. The parenthesis in
it closes the group around it, so each anchor is left with a branch. -/
theorem pasted_label_escapes :
    read? "a)|(?:b".toList = none
      ∧ ∃ q, (singleEdge "a)|(?:b").grammar.follow?
          ⟨#["a)|(?:b", "abc"], #["[S]"]⟩
          (.root (singleEdge "a)|(?:b").grammar.root) 2 = some q
        ∧ ⟨[1], singleEdgeEnd⟩ ∈ q.places := by
  refine ⟨by decide +kernel, ?_⟩
  exact (mem_places_follow? (p := .root (singleEdge "a)|(?:b").grammar.root)
    (List.mem_singleton_self _) (mem_edges_singleEdge _)).2 (by decide +kernel)

/-- The label is a pattern that spans the word, but the comment in it runs over
the parenthesis behind it, and it is taken for itself. -/
example : read? "(?x)a#".toList = some (.literal ['a'])
    ∧ read? (anchored "(?x)a#".toList) = none := by
  decide +kernel

end LatticeParsing
