/-
Labels between anchors.

A label that is a pattern on its own, and gives one between anchors as well,
asks for the words that its own pattern spans from end to end. The anchors
change nothing about what the label's pattern spans (`read?_anchored`), and a
search for the whole finds it only where it begins with the word and ends with
it (`search_betweenAnchors`).
-/
import LatticeParsing.Pattern.LabelPattern
import LatticeParsing.Proofs.Pattern.Reading
import LatticeParsing.Proofs.Pattern.Spans

namespace LatticeParsing.Pattern

variable {label w : List Char} {p q : Pattern} {i j : Nat}

-- ================================================================ reading

/-- The group around a label, in which an anchor stands before the label's own
group. -/
def labelGroup : OpenGroup := ⟨none, {}, [.leaf (.anchor .textStart)], []⟩

theorem anchored_eq (label : List Char) : LabelPattern.anchored label
    = '^' :: '(' :: '?' :: ':' :: (label ++ closing) := by
  simp [LabelPattern.anchored, closing]

theorem readFrom?_anchored
    (h : read? (LabelPattern.anchored label) = some q) :
    ∃ n, readFrom? n (ReaderState.start.under labelGroup) (label ++ closing)
      = some q := by
  rw [anchored_eq] at h
  obtain ⟨n, x, -, hx, h⟩ := readFrom?_cons (s := .start) rfl h
  obtain rfl := Option.some.inj hx
  obtain ⟨m, y, -, hy, h⟩ := readFrom?_cons rfl h
  obtain rfl := Option.some.inj hy
  exact ⟨m, h⟩

/-- A group without number around a pattern, with anchors before and after. -/
def betweenAnchors (p : Pattern) : Pattern :=
  choice [concat [anchor .textStart, p, anchor .textEnd]]

/-- The group at its closing parenthesis spans what is inside. -/
theorem spans_close (g : OpenGroup) (w : List Char) (i j : Nat) :
    g.close.pattern.Spans w i j ↔ g.inside.pattern.Spans w i j := by
  unfold OpenGroup.close
  cases g.number with
  | none => rfl
  | some n => rfl

/-- A label's pattern between anchors is the one that the label has on its
own, as far as what it spans goes. -/
theorem read?_anchored (hp : read? label = some p)
    (hq : read? (LabelPattern.anchored label) = some q) :
    ∃ r, q = betweenAnchors r ∧ ∀ w i j, r.Spans w i j ↔ p.Spans w i j := by
  obtain ⟨n, hq⟩ := readFrom?_anchored hq
  obtain ⟨t, m, houter, hinside, hq⟩ := readFrom?_closed (Or.inl rfl) hp hq
  obtain ⟨k, x, -, hx, hq⟩ := readFrom?_cons rfl hq
  obtain rfl := Option.some.inj hx
  obtain ⟨-, hq⟩ := finish?_eq_some (readFrom?_nil rfl hq)
  refine ⟨t.current.close.pattern, hq, fun w i j => ?_⟩
  rw [spans_close, hinside]

-- =============================================================== spanning

/-- A choice of one pattern that begins with an anchor is that pattern. -/
theorem choice_prepend_anchor (a : Anchor) (p : Pattern) :
    choice [prepend (anchor a) p] = prepend (anchor a) p := by
  have hbranches : branches (prepend (anchor a) p)
      = [prepend (anchor a) p] := by
    cases p <;> rfl
  unfold choice choiceFrom
  rw [List.flatMap_cons, hbranches]
  rfl

theorem betweenAnchors_eq (p : Pattern) : betweenAnchors p
    = prepend (anchor .textStart) (append p (anchor .textEnd)) :=
  choice_prepend_anchor ..

theorem holds_textStart (after : Option Char) (hi : i ≤ w.length) :
    Anchor.holds (before w i) after .textStart = true ↔ i = 0 := by
  unfold Anchor.holds before
  rw [Option.isNone_iff_eq_none]
  split
  case isTrue h => exact ⟨fun _ => h, fun _ => rfl⟩
  case isFalse h =>
    rw [List.getElem?_eq_none_iff]
    omega

theorem holds_textEnd (before : Option Char) :
    Anchor.holds before w[i]? .textEnd = true ↔ w.length ≤ i := by
  unfold Anchor.holds
  rw [Option.isNone_iff_eq_none, List.getElem?_eq_none_iff]

theorem spans_betweenAnchors (hi : i ≤ w.length) :
    (betweenAnchors p).Spans w i j
      ↔ p.Spans w i j ∧ i = 0 ∧ j = w.length := by
  rw [betweenAnchors_eq, spans_prepend]
  constructor
  · rintro ⟨k, ⟨hstart, rfl⟩, h⟩
    obtain ⟨l, hp, hend, rfl⟩ := (spans_append ..).1 h
    rw [holds_textStart _ hi] at hstart
    rw [holds_textEnd] at hend
    exact ⟨hp, hstart, Nat.le_antisymm (hp.bounded hi).2 hend⟩
  · rintro ⟨h, hstart, hend⟩
    refine ⟨i, ⟨(holds_textStart _ hi).2 hstart, rfl⟩, ?_⟩
    exact (spans_append ..).2
      ⟨j, h, (holds_textEnd _).2 (Nat.le_of_eq hend.symm), rfl⟩

/-- A search for a pattern between anchors finds the words that the pattern
spans from end to end. -/
theorem search_betweenAnchors (p : Pattern) (w : List Char) :
    (betweenAnchors p).search w = true ↔ p.Spans w 0 w.length := by
  rw [search_eq_true]
  constructor
  · rintro ⟨i, j, hi, h⟩
    obtain ⟨h, rfl, rfl⟩ := (spans_betweenAnchors hi).1 h
    exact h
  · intro h
    exact ⟨0, w.length, Nat.zero_le _,
      (spans_betweenAnchors (Nat.zero_le _)).2 ⟨h, rfl, rfl⟩⟩

end LatticeParsing.Pattern

namespace LatticeParsing.LabelPattern

open Pattern (read? Spans)

-- ============================================================== accepting

/-- A label that is a pattern on its own and between anchors, or neither, asks
for the words that its pattern spans from end to end, or for itself. -/
theorem accepts_ofLabel {label word : String}
    (h : (read? label.toList).isSome
      = (read? (anchored label.toList)).isSome) :
    (ofLabel .standard label).accepts word = true
      ↔ (∃ p, read? label.toList = some p
          ∧ p.Spans word.toList 0 word.toList.length)
        ∨ (read? label.toList = none ∧ word = label) := by
  unfold ofLabel
  dsimp only [PatternEngine.standard]
  cases hp : read? label.toList with
  | none =>
      rw [hp] at h
      rw [Option.isNone_iff_eq_none.1 (Option.isSome_eq_false_iff.1 h.symm)]
      constructor
      · exact fun h => Or.inr ⟨rfl, beq_iff_eq.1 h⟩
      · rintro (⟨p, hp, -⟩ | ⟨-, h⟩)
        · cases hp
        · exact beq_iff_eq.2 h
  | some p =>
      rw [hp] at h
      obtain ⟨q, hq⟩ := Option.isSome_iff_exists.1 h.symm
      obtain ⟨r, rfl, hr⟩ := Pattern.read?_anchored hp hq
      rw [hq]
      show (Pattern.betweenAnchors r).search word.toList = true ↔ _
      rw [Pattern.search_betweenAnchors, hr]
      constructor
      · exact fun h => Or.inl ⟨p, rfl, h⟩
      · rintro (⟨p', hp', h⟩ | ⟨hnone, -⟩)
        · obtain rfl := Option.some.inj hp'
          exact h
        · cases hnone

end LatticeParsing.LabelPattern
