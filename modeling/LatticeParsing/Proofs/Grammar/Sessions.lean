/-
Drafting while others use the vocabulary.

A draft takes rules one by one and by the text, and whoever shares its
vocabulary may call on that in between. A text is either loaded as a whole
or leaves the draft as it was (`GrammarDraft.load_cases`), so each call comes
to adding the rules that it puts in (`Session.draft_run`), and the finished
grammar holds these and no others. The main statement joins this with what
reading a text comes to: it ends at the first line that is refused.
-/
import LatticeParsing.Proofs.Grammar.Contents
import LatticeParsing.Proofs.Rule.Lines
import LatticeParsing.Proofs.Symbol.Calls

namespace LatticeParsing

variable {E : PatternEngine}

-- ============================================================== loading

namespace GrammarDraft

variable {d d' : GrammarDraft} {v v' : Vocabulary} {text : String}

/-- A text is loaded as a whole, or it is refused and the draft stays as it
was. The vocabulary is in both cases what reading the text makes of it. -/
theorem load_cases (d : GrammarDraft) (v : Vocabulary) (text : String) :
    (∃ v' rs, Rule.ofText v text = (v', .ok rs)
        ∧ d.load v text = (v', rs.foldl add d, .ok ()))
      ∨ ∃ v' e, Rule.ofText v text = (v', .error e)
          ∧ d.load v text = (v', d, .error e) := by
  unfold load
  rcases Rule.ofText v text with ⟨v', e | rs⟩
  · exact Or.inr ⟨v', e, rfl, rfl⟩
  · exact Or.inl ⟨v', rs, rfl, rfl⟩

theorem load_ok (h : d.load v text = (v', d', .ok ())) :
    ∃ rs, Rule.ofText v text = (v', .ok rs) ∧ d' = rs.foldl add d := by
  rcases d.load_cases v text with hload | hload
  · obtain ⟨u, rs, hread, hload⟩ := hload
    rw [hload] at h
    cases h
    exact ⟨rs, hread, rfl⟩
  · obtain ⟨u, e, -, hload⟩ := hload
    rw [hload] at h
    cases h

theorem load_error {e : RuleError}
    (h : d.load v text = (v', d', .error e)) :
    Rule.ofText v text = (v', .error e) ∧ d' = d := by
  rcases d.load_cases v text with hload | hload
  · obtain ⟨u, rs, -, hload⟩ := hload
    rw [hload] at h
    cases h
  · obtain ⟨u, e', hread, hload⟩ := hload
    rw [hload] at h
    cases h
    exact ⟨hread, rfl⟩

end GrammarDraft

-- ============================================================= sessions

/-- A call that is made while a grammar is drafted: it adds a rule or the
rules of a text, or somebody else calls on the vocabulary. -/
inductive SessionCall where
  | add (r : Rule)
  | load (text : String)
  | share (call : VocabularyCall)

/-- A draft and the vocabulary that its texts are read into. -/
structure Session where
  vocabulary : Vocabulary
  draft : GrammarDraft

namespace Session

/-- The session after a call. -/
def run (s : Session) : SessionCall → Session
  | .add r => { s with draft := s.draft.add r }
  | .load text =>
    let (v, d, _) := s.draft.load s.vocabulary text
    ⟨v, d⟩
  | .share call => { s with vocabulary := (call.run s.vocabulary).1 }

/-- The rules that a call puts in: the one that it adds, or those of its text
if that is accepted. -/
def rulesOf (s : Session) : SessionCall → List Rule
  | .add r => [r]
  | .load text =>
    match (Rule.ofText s.vocabulary text).2 with
    | .ok rs => rs
    | .error _ => []
  | .share _ => []

/-- The rules that calls put in, one call after the other. -/
def rules (s : Session) : List SessionCall → List Rule
  | [] => []
  | call :: calls => s.rulesOf call ++ rules (s.run call) calls

/-- A call adds the rules that it puts in. -/
theorem draft_run (s : Session) (call : SessionCall) :
    (s.run call).draft = (s.rulesOf call).foldl GrammarDraft.add s.draft := by
  cases call with
  | add r => rfl
  | share call => rfl
  | load text =>
      rcases s.draft.load_cases s.vocabulary text with h | h
      · obtain ⟨v', rs, hread, hload⟩ := h
        simp only [run, rulesOf, hread, hload]
      · obtain ⟨v', e, hread, hload⟩ := h
        simp only [run, rulesOf, hread, hload, List.foldl_nil]

/-- Calls add the rules that they put in. -/
theorem draft_foldl_run (s : Session) (calls : List SessionCall) :
    (calls.foldl run s).draft
      = (s.rules calls).foldl GrammarDraft.add s.draft := by
  induction calls generalizing s with
  | nil => rfl
  | cons call calls ih =>
      rw [List.foldl_cons, ih, draft_run, rules, List.foldl_append]

end Session

-- ============================================================== results

/-- A refused text adds nothing. Every line is accepted or refused, whatever
the vocabulary, and a refused line leaves that as it was. A text is accepted
just if all lines are that are neither blank nor comments, and then gives
the rules of these lines, read one after the other. Otherwise its error is
that of the first refused line, whose number counts all lines, and the
vocabulary is what the accepted lines before that have made of it. When the
text is loaded into any draft, that takes all rules of the text, or stays as
it was if there is an error. So after any calls on a draft, or by others on
its vocabulary, the finished grammar holds precisely the rules that were
added or stand in an accepted text, in order. -/
theorem refused_texts_add_nothing (E : PatternEngine) (v : Vocabulary)
    (text : String) (d : GrammarDraft) (number : Nat)
    (options : GrammarOptions) (calls : List SessionCall) :
    let lines := Text.lines text.toList
    let start : Session := ⟨v, ⟨number, options, .empty, 0⟩⟩
    let final := calls.foldl Session.run start
    let contents : GrammarContents E :=
      ⟨number, options, start.rules calls, final.vocabulary⟩
    let g := final.draft.finish final.vocabulary E
    (∀ line, Rule.Accepted line ∨ Rule.Refused line)
      ∧ ((Rule.ofText v text).2.isOk = true
          ↔ ∀ line ∈ lines, Rule.isSkipped line = false → Rule.Accepted line)
      ∧ (∀ v' rs, Rule.ofText v text = (v', .ok rs) →
          Rule.Reads v (lines.filter (!Rule.isSkipped ·)) v' rs)
      ∧ (∀ v' e, Rule.ofText v text = (v', .error e) →
          ∃ i line rs, lines[i]? = some line ∧ Rule.isSkipped line = false
            ∧ Rule.Refused line
            ∧ Rule.Reads v ((lines.take i).filter (!Rule.isSkipped ·)) v' rs
            ∧ Rule.readLine v' line (i + 1) = (v', .error e)
            ∧ e.line = i + 1)
      ∧ (∀ v' d', d.load v text = (v', d', .ok ()) →
          ∃ rs, Rule.ofText v text = (v', .ok rs)
            ∧ d' = rs.foldl GrammarDraft.add d)
      ∧ (∀ v' d' e, d.load v text = (v', d', .error e) →
          Rule.ofText v text = (v', .error e) ∧ d' = d)
      ∧ g.ruleCount = contents.rules.length
      ∧ g.root.ruleCount = contents.rules.length
      ∧ ∀ path, g.root.rulesAt path
          = contents.listed.filter fun r => r.rule.source = path := by
  intro lines start final contents g
  have hg : g = contents.grammar := by
    show (calls.foldl Session.run start).draft.finish _ E = _
    rw [Session.draft_foldl_run]
    rfl
  refine ⟨Rule.accepted_or_refused, Rule.isOk_ofText v text,
    fun v' rs h => Rule.reads_of_ofText h,
    fun v' e h => Rule.refused_of_ofText h,
    fun v' d' h => GrammarDraft.load_ok h,
    fun v' d' e h => GrammarDraft.load_error h, ?_, ?_, ?_⟩
  · rw [hg, contents.ruleCount_grammar]
  · rw [hg, contents.ruleCount_root]
    exact List.length_mapIdx
  · rw [hg]
    exact contents.rulesAt_root

end LatticeParsing
