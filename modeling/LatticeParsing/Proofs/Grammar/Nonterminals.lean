/-
The nonterminals of a position.

A chart asks a position for its nonterminals before it follows any of them.
At a single place they are the labels that stand before the terminals; where
places have been merged they are picked out of all labels and sorted afresh.
Both give the same list (`Position.nonterminals_eq`), for the labels of a node
ascend. As a nonterminal label accepts itself and nothing else, the list names
those nonterminals that lead on, and a search by halves finds them
(`nonterminals_lead_on`).

What carries this through all positions of a grammar, however often they have
been merged, is that their places are nodes of its tree (`Position.IsIn`).
-/
import LatticeParsing.Proofs.Grammar.Drafting
import Mathlib.Data.List.Dedup
import Mathlib.Data.List.Sort

namespace LatticeParsing

variable {E : PatternEngine} {t : Trie} {p q : Position} {s : Symbol}

-- ====================================================== sorted symbols

namespace Symbol

/-- Inserting symbols one by one sorts them and leaves out repetitions. -/
theorem sorted_eq (xs : List Symbol) : sorted xs = xs.mergeSort.dedup := by
  have hsorted : xs.mergeSort.Pairwise (· ≤ ·) :=
    List.pairwise_mergeSort' (· ≤ ·) xs
  have hascending : xs.mergeSort.dedup.Pairwise (· < ·) :=
    ((hsorted.sublist (List.dedup_sublist _)).and (List.nodup_dedup _)).imp
      fun h => lt_of_le_of_ne h.1 h.2
  apply (ascending_sorted xs).eq_of_mem_iff hascending
  intro s
  rw [mem_sorted, List.mem_dedup, List.mem_mergeSort]

end Symbol

-- ============================================================ positions

namespace Position

/-- Whether the places of a position are nodes of a tree. -/
def IsIn (t : Trie) (p : Position) : Prop :=
  ∀ q ∈ p.places, t.at? q.path = some q.node

theorem isIn_root (t : Trie) : (root t).IsIn t := by
  intro q hq
  rw [List.mem_singleton.mp hq]
  rfl

/-- Whatever symbols lead to lies in the tree. -/
theorem IsIn.follow (h : p.IsIn t) (ht : t.Ordered) {accepts : Symbol → Bool}
    (hq : p.follow? accepts = some q) : q.IsIn t := by
  intro r hr
  rw [← ofPlaces?_eq_some.mp hq] at hr
  obtain ⟨r', hr', hfollow⟩ := List.mem_flatMap.mp hr
  obtain ⟨s, u, hedge, -, rfl⟩ := Reaches.mem_follow.mp hfollow
  exact ht.at?_concat.mpr ⟨_, h r' hr', hedge⟩

/-- What a position lists as its nonterminals are nonterminals. -/
theorem neg_of_containsSorted
    (h : Symbol.containsSorted p.nonterminals s = true) : s < 0 := by
  have hmem := Symbol.mem_of_containsSorted h
  unfold nonterminals at hmem
  split at hmem
  · exact Symbol.isNonterminal_eq_true.mp
      (Symbol.mem_sortedNonterminals.mp hmem).2
  · exact Symbol.isNonterminal_eq_true.mp
      (List.all_eq_true.mp List.all_takeWhile s hmem)

theorem ascending_nonterminals (h : p.IsIn t) (ht : t.Ordered) :
    p.nonterminals.Pairwise (· < ·) := by
  unfold nonterminals
  split
  · exact Symbol.ascending_sorted _
  · have hfirst := ht _ _ (h p.first (List.mem_cons_self ..))
    exact hfirst.sublist (List.takeWhile_sublist _)

/-- A position lists the nonterminals among its labels. -/
theorem mem_nonterminals (h : p.IsIn t) (ht : t.Ordered) :
    s ∈ p.nonterminals ↔ s < 0 ∧ s ∈ p.labels := by
  rw [and_comm]
  unfold nonterminals
  split
  case isTrue =>
    rw [Symbol.mem_sortedNonterminals, Symbol.isNonterminal_eq_true]
  case isFalse hmerged =>
    have hothers : p.others = [] := by
      simpa [isMerged] using hmerged
    have hfirst := ht _ _ (h p.first (List.mem_cons_self ..))
    rw [Symbol.mem_takeWhile_isNonterminal hfirst, mem_labels,
      Symbol.isNonterminal_eq_true]
    unfold places
    rw [hothers]
    simp

/-- It does not matter whether the list is cut off the labels or sorted
afresh. -/
theorem nonterminals_eq (h : p.IsIn t) (ht : t.Ordered) :
    p.nonterminals = Symbol.sortedNonterminals p.labels := by
  apply (ascending_nonterminals h ht).eq_of_mem_iff
    (Symbol.ascending_sortedNonterminals _)
  intro s
  rw [mem_nonterminals h ht, Symbol.mem_sortedNonterminals,
    Symbol.isNonterminal_eq_true, and_comm]

end Position

-- ============================================================= matching

/-- The positions of a grammar: its root, and wherever a symbol leads from a
position, with the spellings that there are at that time. -/
inductive Grammar.HasPosition (m : Grammar) : Position → Prop
  | root : HasPosition m (.root m.root)
  | follow {p q : Position} {v : Vocabulary} {s : Symbol} :
      HasPosition m p → m.follow? v p s = some q → HasPosition m q

namespace GrammarContents

variable {g : GrammarContents E} {v : Vocabulary}

theorem isIn_of_hasPosition (h : g.grammar.HasPosition p) :
    p.IsIn g.grammar.root := by
  induction h with
  | root => exact Position.isIn_root _
  | follow _ hq ih => exact ih.follow g.ordered_root hq

theorem isIn_of_walk? {symbols : List Symbol}
    (h : (g.view v).walk? symbols = some p) : p.IsIn g.grammar.root :=
  fun q hq => (((places_of_walk? h).mem q).mp hq).1

/-- A nonterminal leads away from a position just if an edge there is labelled
by it. -/
theorem isSome_follow?_nonterminal (h : p.IsIn g.grammar.root) (hs : s < 0) :
    (g.grammar.follow? v p s).isSome ↔ s ∈ p.labels := by
  have haccepts : ∀ q ∈ p.places, ∀ e ∈ q.node.edges,
      (g.grammar.matching.accepts v e.1 s = true ↔ e.1 = s) := by
    intro q hq e he
    have hend := g.ordered_root.at?_concat.mpr ⟨_, h q hq, he⟩
    rw [accepts_matching (Trie.mem_allLabels hend e.1 (by simp)),
      accepts_nonterminal hs]
  show (Position.ofPlaces? _).isSome ↔ _
  rw [Position.isSome_ofPlaces?, Position.mem_labels]
  constructor
  · intro h'
    obtain ⟨r, hr⟩ := h'
    obtain ⟨q, hq, hmem⟩ := List.mem_flatMap.mp hr
    obtain ⟨a, u, hedge, ha, -⟩ := Reaches.mem_follow.mp hmem
    rw [← (haccepts q hq _ hedge).mp ha]
    exact ⟨q, hq, List.mem_map_of_mem hedge⟩
  · intro h'
    obtain ⟨q, hq, hlabel⟩ := h'
    obtain ⟨e, he, heq⟩ := List.mem_map.mp hlabel
    exact ⟨_, List.mem_flatMap.mpr ⟨q, hq, Reaches.mem_follow.mpr
      ⟨e.1, e.2, he, (haccepts q hq e he).mpr heq, rfl⟩⟩⟩

/-- What is found among the nonterminals of a position are those that lead
away from it. -/
theorem containsSorted_nonterminals (h : p.IsIn g.grammar.root) :
    Symbol.containsSorted p.nonterminals s = true
      ↔ s < 0 ∧ (g.grammar.follow? v p s).isSome := by
  have ht := g.ordered_root
  rw [Symbol.containsSorted_iff (Position.ascending_nonterminals h ht),
    Position.mem_nonterminals h ht]
  exact and_congr_right fun hs => (isSome_follow?_nonterminal h hs).symm

end GrammarContents

/-- At every position of a grammar, whatever calls it was built by and whether
its labels are patterns or not, a search among the nonterminals finds just
those that lead on. The nonterminals strictly ascend, and they are the negative
ones among the labels, sorted and without repetitions, both at a single place
and where places have been merged. -/
theorem nonterminals_lead_on (E : PatternEngine) (number : Nat)
    (options : GrammarOptions) (calls : List DraftCall)
    (spellings : Vocabulary) (p : Position)
    (hp : ((GrammarDraft.ofCalls number options calls).finish
      spellings E).HasPosition p) :
    (∀ v s, s < 0 →
        (Symbol.containsSorted p.nonterminals s = true
          ↔ (((GrammarDraft.ofCalls number options calls).finish
              spellings E).follow? v p s).isSome))
      ∧ p.nonterminals.Pairwise (· < ·)
      ∧ p.nonterminals = (p.labels.filter (· < 0)).mergeSort.dedup := by
  rw [← GrammarContents.grammar_ofCalls] at hp ⊢
  have hin := GrammarContents.isIn_of_hasPosition hp
  have ht := GrammarContents.ordered_root
    (.ofCalls (E := E) number options calls spellings)
  refine ⟨fun v s hs => ?_, Position.ascending_nonterminals hin ht, ?_⟩
  · rw [GrammarContents.containsSorted_nonterminals hin]
    exact and_iff_right hs
  · rw [Position.nonterminals_eq hin ht]
    exact Symbol.sorted_eq _

-- ============================================================= examples

/-- The spellings of a grammar whose labels are patterns. -/
def goWords : Vocabulary := ⟨#["goe(s)?", "goes"], #["[X]", "[A]", "[B]"]⟩

/-- Two of its edges lead on from the root for the word `goes`. -/
def goGrammar : Grammar :=
  (GrammarDraft.ofCalls 0 { labelPatterns := true }
    [.add ⟨-2, [1, -1], "a"⟩, .add ⟨-3, [2, -3, 1], "b"⟩]).finish goWords

theorem nonterminals_lead_on_merged :
    ∃ p, goGrammar.follow? goWords (.root goGrammar.root) 2 = some p
      ∧ p.isMerged = true ∧ p.nonterminals = [-3, -1]
      ∧ (goGrammar.follow? goWords p (-3)).isSome
      ∧ ¬ (goGrammar.follow? goWords p (-2)).isSome := by
  have hreached : (goGrammar.follow? goWords (.root goGrammar.root) 2).any
      (fun p => p.isMerged && p.nonterminals == [-3, -1]) = true := by
    decide +kernel
  obtain ⟨p, hp, hmerged⟩ := Option.any_eq_true .. |>.mp hreached
  rw [Bool.and_eq_true, beq_iff_eq] at hmerged
  have hposition : goGrammar.HasPosition p := .follow .root hp
  obtain ⟨hleads, -, -⟩ := nonterminals_lead_on _ _ _ _ _ p hposition
  refine ⟨p, hp, hmerged.1, hmerged.2, ?_, ?_⟩
  · apply (hleads goWords (-3) (by decide)).mp
    rw [hmerged.2]
    decide +kernel
  · intro hsome
    have hfound := (hleads goWords (-2) (by decide)).mpr hsome
    rw [hmerged.2] at hfound
    revert hfound
    decide +kernel

end LatticeParsing
