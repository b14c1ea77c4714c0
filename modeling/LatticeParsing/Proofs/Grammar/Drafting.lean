/-
Grammars from calls on a draft.

A draft takes rules one by one and by the text, in any order, and is then
finished. Only the rules that the calls put in matter, in order
(`foldl_run`): the finished grammar is that of the contents that list them
(`GrammarContents.ofCalls`). So what has been shown of walks through the
grammar of some contents holds of every grammar that can be built, and the
main statement says what a walk finds: the rules whose source sides accept
the symbols, and what their source sides go on with.
-/
import LatticeParsing.Proofs.Grammar.Walks

namespace LatticeParsing

variable {E : PatternEngine}

-- ============================================================ calls

/-- A call on a draft. Others use the same vocabulary, so a text is read
with the spellings that there are when it is loaded. -/
inductive DraftCall where
  | add (r : Rule)
  | load (v : Vocabulary) (text : String)

namespace DraftCall

/-- The draft after a call. A text that is refused leaves it as it was. -/
def run (d : GrammarDraft) : DraftCall → GrammarDraft
  | add r => d.add r
  | load v text =>
    match (d.addText v text).2 with
    | .ok d => d
    | .error _ => d

/-- The rules that a call puts in: all those of a text, or none if it is
refused. -/
def rules : DraftCall → List Rule
  | add r => [r]
  | load v text =>
    match (Rule.ofText v text).2 with
    | .ok rs => rs
    | .error _ => []

theorem run_eq (d : GrammarDraft) (call : DraftCall) :
    call.run d = call.rules.foldl GrammarDraft.add d := by
  cases call with
  | add r => rfl
  | load v text =>
      simp only [run, rules, GrammarDraft.addText_eq]
      cases (Rule.ofText v text).2 with
      | error e => rfl
      | ok rs => rfl

/-- Calls put in the rules of one after the other. -/
theorem foldl_run (calls : List DraftCall) (d : GrammarDraft) :
    calls.foldl run d = (calls.flatMap rules).foldl GrammarDraft.add d := by
  induction calls generalizing d with
  | nil => rfl
  | cons call calls ih =>
      rw [List.foldl_cons, ih, run_eq, List.flatMap_cons, List.foldl_append]

end DraftCall

/-- The draft that calls make of an empty one. -/
def GrammarDraft.ofCalls (number : Nat) (options : GrammarOptions)
    (calls : List DraftCall) : GrammarDraft :=
  calls.foldl DraftCall.run ⟨number, options, .empty, 0⟩

-- ============================================================ order

/-- Whether a rule comes before another: by their source sides, and where
these are the same, in the order in which the rules were put in. -/
def ListedRule.Before (r s : ListedRule) : Prop :=
  r.rule.source < s.rule.source
    ∨ r.rule.source = s.rule.source ∧ r.id.place < s.id.place

theorem Position.hasExtensions_iff {p : Position} :
    p.hasExtensions = true ↔ p.labels ≠ [] := by
  unfold hasExtensions
  rw [List.any_eq_true, ← List.isEmpty_eq_false_iff,
    List.isEmpty_eq_false_iff_exists_mem]
  simp only [mem_labels, Trie.labels, List.mem_map, Bool.not_eq_true',
    List.isEmpty_eq_false_iff]
  constructor
  · intro h
    obtain ⟨q, hq, hedges⟩ := h
    obtain ⟨e, he⟩ := List.exists_mem_of_ne_nil _ hedges
    exact ⟨e.1, q, hq, e, he, rfl⟩
  · intro h
    obtain ⟨s, q, hq, e, he, -⟩ := h
    exact ⟨q, hq, List.ne_nil_of_mem he⟩

theorem concat_prefix_iff {path source : List Symbol} {s : Symbol} :
    path ++ [s] <+: source
      ↔ source.take path.length = path ∧ source[path.length]? = some s := by
  constructor
  · intro h
    obtain ⟨rest, rfl⟩ := h
    simp
  · intro h
    obtain ⟨htake, hget⟩ := h
    obtain ⟨hlt, rfl⟩ := List.getElem?_eq_some_iff.1 hget
    have hsucc := List.take_append_getElem hlt
    rw [htake] at hsucc
    rw [hsucc]
    exact List.take_prefix ..

namespace GrammarContents

variable {g : GrammarContents E} {v : Vocabulary} {w : List Symbol}
  {p : Position} {r : ListedRule} {s : Symbol}

/-- Whether the source side of a rule accepts symbols one by one, to its
end. -/
def Matches (g : GrammarContents E) (v : Vocabulary) (r : ListedRule)
    (w : List Symbol) : Prop :=
  List.Forall₂ (g.Accepts v) r.rule.source w

/-- Whether the first symbols of the source side of a rule accept symbols
one by one. -/
def MatchesFirst (g : GrammarContents E) (v : Vocabulary) (r : ListedRule)
    (w : List Symbol) : Prop :=
  List.Forall₂ (g.Accepts v) (r.rule.source.take w.length) w

/-- Rules are listed in the order in which they were put in. -/
theorem pairwise_listed (g : GrammarContents E) :
    g.listed.Pairwise fun r s => r.id.place < s.id.place := by
  have hplaces : g.listed.map (·.id.place) = List.range g.rules.length := by
    unfold listed
    exact List.ext_getElem (by simp) fun n _ _ => by simp
  rw [← List.pairwise_map (f := fun r : ListedRule => r.id.place)
    (R := (· < ·)), hplaces]
  exact List.pairwise_lt_range

/-- Symbols can be walked if there are none or a source side accepts them
with its first symbols. -/
theorem isSome_walk?_iff :
    ((g.view v).walk? w).isSome
      ↔ w = [] ∨ ∃ r ∈ g.listed, g.MatchesFirst v r w := by
  rw [isSome_walk?]
  constructor
  · intro h
    obtain ⟨path, rfl | ⟨r, hr, hprefix⟩, hpath⟩ := h
    · exact Or.inl (List.forall₂_nil_left_iff.1 hpath)
    · refine Or.inr ⟨r, hr, ?_⟩
      unfold MatchesFirst
      rwa [← hpath.length_eq, ← List.prefix_iff_eq_take.1 hprefix]
  · intro h
    rcases h with rfl | ⟨r, hr, hfirst⟩
    · exact ⟨[], Or.inl rfl, .nil⟩
    · exact ⟨_, Or.inr ⟨r, hr, List.take_prefix ..⟩, hfirst⟩

/-- The rules at the end of a walk stand in order, whatever places have been
merged. -/
theorem pairwise_rules_of_walk? (h : (g.view v).walk? w = some p) :
    p.rules.Pairwise ListedRule.Before := by
  have hsource : ∀ q ∈ p.places, ∀ r ∈ q.node.rules,
      r.rule.source = q.path := by
    intro q hq r hr
    rw [rules_of_mem_places h hq] at hr
    simpa using (List.mem_filter.1 hr).2
  unfold Position.rules
  rw [List.pairwise_flatMap]
  constructor
  -- rules of one place have the same source side
  · intro q hq
    have hplaces : q.node.rules.Pairwise
        fun r s => r.id.place < s.id.place := by
      rw [rules_of_mem_places h hq]
      exact g.pairwise_listed.filter _
    refine hplaces.imp_of_mem fun {r s} hr hs hlt => Or.inr ⟨?_, hlt⟩
    rw [hsource q hq r hr, hsource q hq s hs]
  -- places stand in the order of the labels that lead to them
  · refine (List.pairwise_map.1 (places_of_walk? h).ascending).imp_of_mem
      fun {q q'} hq hq' hlt r hr s hs => Or.inl ?_
    rw [hsource q hq r hr, hsource q' hq' s hs]
    exact hlt

/-- The labels behind a walk are those that the source sides go on with. -/
theorem mem_labels_of_walk? (h : (g.view v).walk? w = some p) :
    s ∈ p.labels ↔ ∃ r ∈ g.listed, g.MatchesFirst v r w
      ∧ r.rule.source[w.length]? = some s := by
  have hreach := places_of_walk? h
  have hlabels : ∀ q : Place, g.grammar.root.at? q.path = some q.node →
      (s ∈ q.node.labels
        ↔ ∃ r ∈ g.listed, q.path ++ [s] <+: r.rule.source) := by
    intro q hat
    have hsome : (g.grammar.root.at? (q.path ++ [s])).isSome
        ↔ ∃ r ∈ g.listed, q.path ++ [s] <+: r.rule.source := by
      rw [g.isSome_at?_root, or_iff_right (by simp)]
    rw [← hsome, Option.isSome_iff_exists]
    simp only [g.ordered_root.at?_concat, hat, Option.some.injEq,
      exists_eq_left', Trie.labels, List.mem_map, Prod.exists]
    exact ⟨fun ⟨_, u, hu, hs⟩ => ⟨u, hs ▸ hu⟩, fun ⟨u, hu⟩ => ⟨s, u, hu, rfl⟩⟩
  rw [Position.mem_labels]
  constructor
  · intro h'
    obtain ⟨q, hq, hs⟩ := h'
    obtain ⟨hat, hpath⟩ := (hreach.mem q).1 hq
    obtain ⟨r, hr, hprefix⟩ := (hlabels q hat).1 hs
    obtain ⟨htake, hget⟩ := concat_prefix_iff.1 hprefix
    have hpath := (forall₂_accepts_matching
      (Option.isSome_of_eq_some hat)).1 hpath
    rw [hpath.length_eq] at htake hget
    refine ⟨r, hr, ?_, hget⟩
    unfold MatchesFirst
    rwa [htake]
  · intro h'
    obtain ⟨r, hr, hfirst, hget⟩ := h'
    have hlength := hfirst.length_eq
    have hprefix : r.rule.source.take w.length ++ [s] <+: r.rule.source := by
      rw [concat_prefix_iff, hlength]
      exact ⟨rfl, hget⟩
    have hsome := g.isSome_at?_root.2
      (Or.inr ⟨r, hr, List.take_prefix w.length r.rule.source⟩)
    obtain ⟨u, hu⟩ := Option.isSome_iff_exists.1 hsome
    exact ⟨⟨_, u⟩, (hreach.mem _).2
      ⟨hu, (forall₂_accepts_matching hsome).2 hfirst⟩,
      (hlabels ⟨_, u⟩ hu).2 ⟨r, hr, hprefix⟩⟩

/-- What calls on a draft put into a grammar that is finished with the
spellings `spellings`. -/
def ofCalls (number : Nat) (options : GrammarOptions)
    (calls : List DraftCall) (spellings : Vocabulary) : GrammarContents E :=
  ⟨number, options, calls.flatMap DraftCall.rules, spellings⟩

theorem grammar_ofCalls (number : Nat) (options : GrammarOptions)
    (calls : List DraftCall) (spellings : Vocabulary) :
    (ofCalls (E := E) number options calls spellings).grammar
      = (GrammarDraft.ofCalls number options calls).finish spellings E := by
  unfold GrammarDraft.ofCalls
  rw [DraftCall.foldl_run]
  rfl

end GrammarContents

/-- A finished grammar stands for exactly the rules that were put in. Let it
be built by any calls on a draft, finished while the spellings were
`spellings` and walked while they are those of `v`; where its labels are
patterns, let any engine read them. The walk along symbols `w` leads somewhere
if there are none or the first symbols of some source side accept them. Where
it leads, there are exactly the rules whose source sides accept all of `w`, in
order and each once, and there is a collection of rules only if there are
some. The labels of the edges that leave the position are the symbols that
follow in the source sides that accept `w` with their first symbols, each
once, and the position has extensions just if there are any. -/
theorem walks_find_accepting_rules (E : PatternEngine) (number : Nat)
    (options : GrammarOptions) (calls : List DraftCall)
    (spellings v : Vocabulary) (w : List Symbol) :
    let g : GrammarContents E := .ofCalls number options calls spellings
    let view :=
      ((GrammarDraft.ofCalls number options calls).finish spellings E).view v
    ((view.walk? w).isSome ↔ w = [] ∨ ∃ r ∈ g.listed, g.MatchesFirst v r w)
      ∧ ∀ p, view.walk? w = some p →
          (∀ r, r ∈ p.rules ↔ r ∈ g.listed ∧ g.Matches v r w)
          ∧ p.rules.Nodup
          ∧ p.rules.Pairwise ListedRule.Before
          ∧ (p.hasRules = true ↔ ∃ r ∈ g.listed, g.Matches v r w)
          ∧ (∀ s, s ∈ p.labels ↔ ∃ r ∈ g.listed, g.MatchesFirst v r w
              ∧ r.rule.source[w.length]? = some s)
          ∧ p.labels.Nodup
          ∧ (p.hasExtensions = true ↔ p.labels ≠ []) := by
  intro g view
  have hview : view = g.view v :=
    congrArg (Grammar.view · v)
      (GrammarContents.grammar_ofCalls number options calls spellings).symm
  rw [hview]
  refine ⟨GrammarContents.isSome_walk?_iff, fun p hp => ?_⟩
  have hmem : ∀ r, r ∈ p.rules ↔ r ∈ g.listed ∧ g.Matches v r w := fun r =>
    GrammarContents.mem_rules_of_walk? hp
  refine ⟨hmem, GrammarContents.nodup_rules_of_walk? hp,
    GrammarContents.pairwise_rules_of_walk? hp, ?_,
    fun s => GrammarContents.mem_labels_of_walk? hp,
    (Symbol.ascending_sorted _).imp ne_of_lt, Position.hasExtensions_iff⟩
  unfold Position.hasRules
  rw [Bool.not_eq_true', List.isEmpty_eq_false_iff_exists_mem]
  exact exists_congr hmem

end LatticeParsing
