/-
Summaries of parses.

A parse with finished grammars can always be summarised (`exists_summary`):
what is told of it is read off its final state, with the spellings of the
vocabulary in which the goal has been interned.
-/
import LatticeParsing.Proofs.Parse.Setup
import LatticeParsing.Report.Summary

namespace LatticeParsing

variable {E : PatternEngine} {v : Vocabulary} {r : ParseResult}

/-- Every constituent of the forest is listed, in the order of their
numbers. -/
theorem ParseResult.mem_constituents {c : ConstituentSummary} :
    c ∈ (r.summary v).constituents
      ↔ ∃ (id : Nat) (c' : Constituent),
          r.parse.forest.constituents[id]? = some c' ∧ c'.summary v = c := by
  show c ∈ r.parse.forest.constituents.toList.map _ ↔ _
  simp only [List.mem_map, Array.mem_toList_iff, Array.mem_iff_getElem?]
  constructor
  · rintro ⟨c', ⟨id, hc'⟩, rfl⟩
    exact ⟨id, c', hc', rfl⟩
  · rintro ⟨id, c', hc', rfl⟩
    exact ⟨c', ⟨id, hc'⟩, rfl⟩

namespace Charting

@[simp]
theorem forest_toParse (gs : List GrammarView) (x : Charting) :
    (x.toParse gs).forest = x.forest := rfl

/-- A parse with finished grammars comes to its end and is summarised. -/
theorem exists_summary (l : Lattice) (gs : List (GrammarContents E))
    (v : Vocabulary) (goal : String) :
    ∃ r, l.parse (gs.map (·.view (v.intern goal).1)) (v.intern goal).2 = .ok r
      ∧ r.parse = (final l (gs.map (·.view (v.intern goal).1))).toParse
          (gs.map (·.view (v.intern goal).1))
      ∧ r.goal = r.parse.goal? l (v.intern goal).2
      ∧ Grammar.summarize v (gs.map (·.grammar)) l goal
          = .ok (r.summary (v.intern goal).1) := by
  obtain ⟨r, hparse, hstate, hgoal⟩ :=
    exists_parse l gs (v.intern goal).1 (v.intern goal).2
  refine ⟨r, hparse, hstate, hgoal, ?_⟩
  have hviews : (gs.map (·.grammar)).map (·.view (v.intern goal).1)
      = gs.map (·.view (v.intern goal).1) := List.map_map
  show (l.parse ((gs.map (·.grammar)).map (·.view (v.intern goal).1))
    (v.intern goal).2).bind _ = _
  rw [hviews, hparse]
  rfl

end Charting

end LatticeParsing
