/-
Sets of code points as lists of ranges.

A set is a list of ranges, each with its first and its last member. In the
normal form the ranges ascend and neither overlap nor touch. Union,
intersection and difference come from two operations: `normalize`, which
takes ranges in any order, and `compl`. Surrogates are not characters: they
are in no complement.

Tables of ranges are texts of numbers separated by blanks. Read in pairs
the numbers are the ranges in ascending order: how many code points lie
between the end of the range before and this one, and how many it holds.

Main statements: membership in a normal form, a union and a complement is
what it should be.
-/
namespace LatticeParsing.Unicode

/-- Ranges of code points, each with its first and its last member. -/
abbrev Ranges := List (Nat × Nat)

namespace Ranges

-- ============================================================== tables

/-- The numbers of a table, `acc` being the value of the digits read since
the last blank. -/
def numbersFrom (acc : Nat) : List Char → List Nat
  | [] => [acc]
  | c :: cs =>
    if c == ' ' then acc :: numbersFrom 0 cs
    else numbersFrom (10 * acc + (c.toNat - '0'.toNat)) cs

/-- The numbers of a table. -/
def numbers (s : String) : List Nat := numbersFrom 0 s.toList

/-- Ranges from gaps and sizes, where the first gap starts at `next`. -/
def ofSteps (next : Nat) : List Nat → Ranges
  | gap :: size :: rest =>
    (next + gap, next + gap + size - 1) :: ofSteps (next + gap + size) rest
  | _ => []

/-- The ranges that a table writes. -/
def decode (s : String) : Ranges := ofSteps 0 (numbers s)

-- ========================================================== membership

/-- Membership of a code point. -/
def contains (rs : Ranges) (n : Nat) : Bool :=
  rs.any fun (lo, hi) => lo ≤ n && n ≤ hi

/-- The ranges in the order of their first members. -/
def sort (rs : Ranges) : Ranges := rs.mergeSort fun r s => r.1 ≤ s.1

/-- A range and the ranges after it, where those that overlap or touch are
made one. -/
def join (r : Nat × Nat) : Ranges → Ranges
  | [] => [r]
  | s :: rest =>
    if s.1 ≤ r.2 + 1 then join (r.1, max r.2 s.2) rest
    else r :: join s rest

/-- The normal form of a set. -/
def normalize (rs : Ranges) : Ranges :=
  match sort rs with
  | [] => []
  | r :: rest => join r rest

-- ============================================================= algebra

/-- The last code point. -/
def maxCode : Nat := 0x10FFFF

/-- The code points that are not characters. -/
def surrogates : Nat × Nat := (0xD800, 0xDFFF)

/-- The code points from `next` on outside ranges that ascend. -/
def complFrom (next : Nat) : Ranges → Ranges
  | [] => if next ≤ maxCode then [(next, maxCode)] else []
  | (lo, hi) :: rest =>
    (if next < lo then [(next, lo - 1)] else [])
      ++ complFrom (max next (hi + 1)) rest

/-- The characters outside a set. -/
def compl (rs : Ranges) : Ranges := complFrom 0 (sort (surrogates :: rs))

/-- The characters of a set. -/
def characters (rs : Ranges) : Ranges := rs.compl.compl

/-- The code points in one of two sets. -/
def union (rs ss : Ranges) : Ranges := normalize (rs ++ ss)

/-- The characters in both of two sets. -/
def inter (rs ss : Ranges) : Ranges := (rs.compl.union ss.compl).compl

/-- The characters in one set and not in another. -/
def diff (rs ss : Ranges) : Ranges := (rs.compl.union ss).compl

/-- The characters in exactly one of two sets. -/
def symmDiff (rs ss : Ranges) : Ranges := (rs.diff ss).union (ss.diff rs)

/-- The code points in one of several sets. -/
def unionAll (sets : List Ranges) : Ranges := normalize sets.flatten

-- ============================================================== lemmas

/-- Ranges in the order of their first members. -/
def Ascending (rs : Ranges) : Prop := rs.Pairwise fun r s => r.1 ≤ s.1

theorem ascending_sort (rs : Ranges) : (sort rs).Ascending := by
  have h := @List.pairwise_mergeSort (Nat × Nat) (fun r s => r.1 ≤ s.1)
    (by intro a b c; simp only [decide_eq_true_eq]; omega)
    (by intro a b; simp only [Bool.or_eq_true, decide_eq_true_eq]; omega) rs
  simpa [Ascending, sort] using h

theorem contains_sort (rs : Ranges) (n : Nat) :
    (sort rs).contains n = rs.contains n := by
  have h := List.mergeSort_perm rs fun r s => decide (r.1 ≤ s.1)
  simp only [contains, sort]
  rw [Bool.eq_iff_iff, List.any_eq_true, List.any_eq_true]
  constructor
  · rintro ⟨r, hr, hn⟩
    exact ⟨r, h.mem_iff.1 hr, hn⟩
  · rintro ⟨r, hr, hn⟩
    exact ⟨r, h.mem_iff.2 hr, hn⟩

theorem contains_cons (r : Nat × Nat) (rs : Ranges) (n : Nat) :
    contains (r :: rs) n = ((r.1 ≤ n && n ≤ r.2) || contains rs n) := rfl

theorem contains_append (rs ss : Ranges) (n : Nat) :
    contains (rs ++ ss) n = (rs.contains n || ss.contains n) := by
  simp [contains, List.any_append]

theorem contains_join (r : Nat × Nat) (rs : Ranges)
    (h : Ascending (r :: rs)) (n : Nat) :
    (join r rs).contains n = contains (r :: rs) n := by
  induction rs generalizing r with
  | nil => rfl
  | cons s rest ih =>
    have hr : ∀ t ∈ s :: rest, r.1 ≤ t.1 := (List.pairwise_cons.1 h).1
    have hs : Ascending (s :: rest) := (List.pairwise_cons.1 h).2
    have hrest : Ascending rest := (List.pairwise_cons.1 hs).2
    have hrs := hr s List.mem_cons_self
    unfold join
    split
    · rename_i htouch
      rw [ih (r.1, max r.2 s.2) (List.pairwise_cons.2
        ⟨fun t ht => hr t (List.mem_cons_of_mem _ ht), hrest⟩)]
      simp only [contains_cons]
      rw [← Bool.or_assoc]
      congr 1
      rw [Bool.eq_iff_iff]
      simp only [Bool.and_eq_true, Bool.or_eq_true, decide_eq_true_eq]
      omega
    · rw [contains_cons, contains_cons, ih s hs]

theorem contains_normalize (rs : Ranges) (n : Nat) :
    rs.normalize.contains n = rs.contains n := by
  have hsort := contains_sort rs n
  have hasc := ascending_sort rs
  unfold normalize
  split
  · rename_i he
    rw [← hsort, he]
  · rename_i r rest he
    rw [he] at hsort hasc
    rw [contains_join r rest hasc, hsort]

theorem contains_union (rs ss : Ranges) (n : Nat) :
    (rs.union ss).contains n = (rs.contains n || ss.contains n) := by
  rw [union, contains_normalize, contains_append]

theorem contains_complFrom (rs : Ranges) (h : rs.Ascending) (next n : Nat)
    (hn : n ≤ maxCode) :
    (complFrom next rs).contains n
      = (decide (next ≤ n) && !rs.contains n) := by
  induction rs generalizing next with
  | nil =>
    unfold complFrom
    split
    · simp [contains, hn]
    · have : ¬ next ≤ n := by omega
      simp [contains, this]
  | cons r rest ih =>
    obtain ⟨lo, hi⟩ := r
    have hlo : ∀ t ∈ rest, lo ≤ t.1 := (List.pairwise_cons.1 h).1
    have hrest := (List.pairwise_cons.1 h).2
    have hbelow : n < lo → contains rest n = false := by
      intro hlt
      simp only [contains, List.any_eq_false]
      intro t ht
      have := hlo t ht
      simp only [Bool.and_eq_true, decide_eq_true_eq]
      omega
    unfold complFrom
    rw [contains_append, ih hrest, contains_cons]
    by_cases hnl : n < lo
    · rw [hbelow hnl]
      split <;>
        · rw [Bool.eq_iff_iff]
          simp [contains]
          omega
    · have hgap : contains (if next < lo then [(next, lo - 1)] else []) n
          = false := by
        split
        · simp only [contains, List.any_cons, List.any_nil, Bool.or_false,
            Bool.and_eq_false_iff, decide_eq_false_iff_not]
          omega
        · rfl
      rw [hgap]
      cases contains rest n <;> rw [Bool.eq_iff_iff] <;> simp
      omega

/-- Code points that are characters. -/
def IsCharacter (n : Nat) : Prop :=
  n ≤ maxCode ∧ ¬ (surrogates.1 ≤ n ∧ n ≤ surrogates.2)

theorem contains_compl (rs : Ranges) (n : Nat) (h : IsCharacter n) :
    rs.compl.contains n = !rs.contains n := by
  rw [compl, contains_complFrom _ (ascending_sort _) _ _ h.1, contains_sort,
    contains_cons]
  have : (decide (surrogates.1 ≤ n) && decide (n ≤ surrogates.2))
      = false := by
    rw [Bool.eq_false_iff]
    simpa using fun h1 h2 => h.2 ⟨h1, h2⟩
  rw [this]
  simp

theorem contains_inter (rs ss : Ranges) (n : Nat) (h : IsCharacter n) :
    (rs.inter ss).contains n = (rs.contains n && ss.contains n) := by
  rw [inter, contains_compl _ _ h, contains_union, contains_compl _ _ h,
    contains_compl _ _ h]
  simp

theorem contains_diff (rs ss : Ranges) (n : Nat) (h : IsCharacter n) :
    (rs.diff ss).contains n = (rs.contains n && !ss.contains n) := by
  rw [diff, contains_compl _ _ h, contains_union, contains_compl _ _ h]
  simp

end Ranges

end LatticeParsing.Unicode
