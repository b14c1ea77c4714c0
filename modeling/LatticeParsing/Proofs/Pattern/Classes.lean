/-
What characters a class stands for.

The sets of a pattern are lists of ranges, and the reader joins and negates
them as such. Membership says what comes of it: a union has the members of its
parts, a join those that its two sides have in the way of the join
(`SetJoin.holds`), and to negate a set is to take the other characters. What
carries this is membership in the normal form and in the complement of
ranges, which is as it should be for characters and only for these: no
complement holds a surrogate.

So a bracket expression stands for what its parts say when it is closed
(`OpenBracket.contains_close?`), and the dot for all characters but those
that end a line (`Flags.contains_dot?`).
-/
import LatticeParsing.Pattern.Bracket

namespace LatticeParsing

open Unicode

namespace CharSet

theorem isCharacter_toNat (c : Char) : Ranges.IsCharacter c.toNat := by
  have hvalid : c.toNat < 0xD800 ∨ 0xDFFF < c.toNat ∧ c.toNat < 0x110000 :=
    c.valid
  simp only [Ranges.IsCharacter, Ranges.maxCode, Ranges.surrogates]
  omega

/-- A range has the characters between its ends. -/
theorem contains_range {lo hi c : Char} :
    (range lo hi).contains c.toNat = true ↔ lo ≤ c ∧ c ≤ hi := by
  have hc := isCharacter_toNat c
  unfold range Ranges.characters
  rw [Ranges.contains_compl _ _ hc, Ranges.contains_compl _ _ hc,
    Bool.not_not]
  simp [Ranges.contains, Char.le_def, UInt32.le_iff_toNat_le]

theorem contains_unionAll (sets : List CharSet) (n : Nat) :
    (Ranges.unionAll sets).contains n = sets.any (·.contains n) := by
  unfold Ranges.unionAll
  rw [Ranges.contains_normalize]
  unfold Ranges.contains
  rw [List.any_flatten]

end CharSet

namespace Pattern

-- ================================================================ joins

/-- How membership in a join goes by membership in its two sides. -/
def SetJoin.holds : SetJoin → Bool → Bool → Bool
  | inter, s, t => s && t
  | diff, s, t => s && !t
  | symmDiff, s, t => s != t

theorem SetJoin.contains_apply (j : SetJoin) (s t : CharSet) (c : Char) :
    (j.apply s t).contains c.toNat
      = j.holds (s.contains c.toNat) (t.contains c.toNat) := by
  have hc := CharSet.isCharacter_toNat c
  cases j with
  | inter => exact Ranges.contains_inter s t _ hc
  | diff => exact Ranges.contains_diff s t _ hc
  | symmDiff =>
      show (Ranges.union (s.diff t) (t.diff s)).contains _ = (_ != _)
      rw [Ranges.contains_union, Ranges.contains_diff s t _ hc,
        Ranges.contains_diff t s _ hc]
      cases s.contains c.toNat <;> cases t.contains c.toNat <;> rfl

-- ================================================================ flags

namespace Flags

variable {f : Flags} {s t : CharSet}

theorem foldSet_of_not_caseless (hf : f.caseless = false) (s : CharSet) :
    f.foldSet s = s := by
  unfold foldSet
  rw [hf]
  rfl

/-- To negate a set is to take the other characters. -/
theorem contains_negate? {negated : Bool}
    (h : f.negate? negated s = some t) (c : Char) :
    t.contains c.toNat = (negated != s.contains c.toNat) := by
  unfold negate? at h
  cases negated with
  | false =>
      cases h
      exact (Bool.false_bne _).symm
  | true =>
      obtain ⟨-, h⟩ := Option.ite_none_right_eq_some.1 h
      cases h
      rw [Ranges.contains_compl _ _ (CharSet.isCharacter_toNat c),
        Bool.true_bne]

/-- The dot stands for all characters, or for all that end no line. -/
theorem contains_dot? (h : f.dot? = some s) (c : Char) :
    s.contains c.toNat = true
      ↔ f.dotAll = true ∨ c ≠ '\n' ∧ (f.returnLines = true → c ≠ '\r') := by
  have hc := CharSet.isCharacter_toNat c
  unfold dot? at h
  split at h
  case isTrue => cases h
  split at h
  case isTrue hall =>
    cases h
    rw [Ranges.contains_compl _ _ hc]
    exact iff_of_true rfl (Or.inl hall)
  case isFalse hall =>
    split at h
    case isTrue hreturn =>
      cases h
      have hends : (CharSet.ofChars "\r\n").contains c.toNat = true
          ↔ c = '\r' ∨ c = '\n' := by
        unfold CharSet.ofChars
        rw [CharSet.contains_unionAll]
        simp [CharSet.contains_single]
      rw [Ranges.contains_compl _ _ hc, Bool.not_eq_true',
        Bool.eq_false_iff, Ne, hends]
      simp [hall, hreturn, and_comm]
    case isFalse hreturn =>
      cases h
      rw [Ranges.contains_compl _ _ hc, Bool.not_eq_true',
        Bool.eq_false_iff, Ne, CharSet.contains_single]
      simp [hall, hreturn]

end Flags

-- ============================================================= brackets

namespace OpenBracket

variable {f : Flags} {b : OpenBracket} {s : NestedSet}

/-- Members that have been read are united. -/
theorem contains_union (b : OpenBracket) (n : Nat) :
    b.union.set.contains n = b.members.any (·.set.contains n) := by
  unfold union
  split
  case h_1 h => rw [h]; rfl
  case h_2 m h => rw [h]; simp
  case h_3 ms _ _ =>
    rw [CharSet.contains_unionAll, List.any_map, List.any_reverse]
    rfl

/-- A join has the characters that its sides have in the way of the join. -/
theorem contains_joined (f : Flags) (b : OpenBracket) (c : Char) :
    (b.joined f).set.contains c.toNat
      = match b.left with
        | none => b.union.set.contains c.toNat
        | some (j, l) => j.holds ((f.foldSet l.set).contains c.toNat)
            ((f.foldSet b.union.set).contains c.toNat) := by
  unfold joined
  cases b.left with
  | none => rfl
  | some left => exact left.1.contains_apply _ _ c

/-- A bracket expression stands for the characters of what has been read, or
for all others if it is negated: for those of its members, or of a join whose
right side these are. -/
theorem contains_close? (hf : f.caseless = false)
    (h : b.close? f = some s) (c : Char) :
    s.set.contains c.toNat
      = (b.negated != match b.left with
          | none => b.members.any (·.set.contains c.toNat)
          | some (j, l) => j.holds (l.set.contains c.toNat)
              (b.members.any (·.set.contains c.toNat))) := by
  obtain ⟨set, hset, hs⟩ := Option.bind_eq_some_iff.1 h
  cases hs
  rw [Flags.contains_negate? hset, Flags.foldSet_of_not_caseless hf,
    contains_joined]
  simp only [Flags.foldSet_of_not_caseless hf, contains_union]

end OpenBracket

end Pattern

end LatticeParsing
