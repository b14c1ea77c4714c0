/-
Tables over spans keep what is written.

The row of the spans that start at `i + 1` begins where the row of `i`
ends, and the last row ends with the table. So the entries stand in the
order of their spans, without a gap (`map_index?_spans`), and every span has
an entry of its own. An entry that is changed is changed for its span alone:
all that the charts and the forest say about their cells rests on
`get?_modify`.

A table is written to in two ways: the entry of a span is set, or it is
changed where it stands. Whatever is written, in whatever order, the entry of
a span holds what was written last to that very span (`get?_foldl_run`).
-/
import LatticeParsing.Chart.Triangle
import Mathlib.Data.List.Basic
import Mathlib.Data.Nat.Choose.Basic
import Mathlib.Tactic.Ring

namespace LatticeParsing.Triangle

variable {α : Type} {max i j : Nat}

-- ================================================================ rows

/-- What is taken off in `rowStart` is not more than what it is taken
from. -/
theorem half_mul_pred_le (h : i ≤ max + 1) :
    i * (i - 1) / 2 ≤ i * (max + 1) :=
  calc i * (i - 1) / 2
      ≤ i * (i - 1) := Nat.div_le_self ..
    _ ≤ i * (max + 1) := Nat.mul_le_mul_left i (by omega)

/-- The row of `i` has an entry for every end from `i` to `max`. -/
theorem rowStart_succ (h : i ≤ max) :
    rowStart max (i + 1) = rowStart max i + (max + 1 - i) := by
  have hle : i * (i - 1) / 2 ≤ i * (max + 1) := half_mul_pred_le (by omega)
  have hmul : (i + 1) * (max + 1) = i * (max + 1) + (max + 1) := by ring
  unfold rowStart
  rw [Nat.triangle_succ, hmul]
  omega

/-- A later row begins behind the end of an earlier one. -/
theorem rowStart_add_le {k : Nat} (h : i < k) (hk : k ≤ max + 1) :
    rowStart max i + (max + 1 - i) ≤ rowStart max k := by
  induction k with
  | zero => omega
  | succ k ih =>
      rcases Nat.lt_succ_iff_lt_or_eq.1 h with hlt | rfl
      · have hle := ih hlt (by omega)
        rw [rowStart_succ (by omega)]
        omega
      · rw [rowStart_succ (by omega)]

/-- The row behind the last one would begin at the end of the table. -/
theorem rowStart_max (max : Nat) : rowStart max (max + 1) = spanCount max := by
  have hsq : (max + 1) * (max + 1) = (max + 1) * max + (max + 1) := by ring
  have htwo : (max + 1) * (max + 2) = (max + 1) * max + 2 * (max + 1) := by
    ring
  have hle : (max + 1) * max / 2 ≤ (max + 1) * max := Nat.div_le_self ..
  have heven : 2 ∣ (max + 1) * max :=
    (Nat.even_mul_pred_self (max + 1)).two_dvd
  unfold spanCount rowStart
  rw [htwo, Nat.add_mul_div_left _ _ (by decide), Nat.add_sub_cancel, hsq]
  omega

/-- The rows follow one another. -/
theorem flatMap_rows {n : Nat} (h : n ≤ max + 1) :
    ((List.range n).flatMap fun i =>
      List.range' (rowStart max i) (max + 1 - i))
        = List.range (rowStart max n) := by
  induction n with
  | zero => simp [rowStart]
  | succ n ih =>
      have hrows : List.range (rowStart max n)
          ++ List.range' (rowStart max n) (max + 1 - n)
            = List.range (rowStart max (n + 1)) := by
        rw [rowStart_succ (by omega), List.range_eq_range',
          List.range_eq_range']
        simpa using List.range'_append_1 (s := 0) (m := rowStart max n)
      rw [List.range_succ, List.flatMap_append, ih (by omega),
        List.flatMap_singleton, hrows]

-- =============================================================== spans

theorem mem_spans : (i, j) ∈ spans max ↔ i ≤ j ∧ j ≤ max := by
  simp only [spans, List.mem_flatMap, List.mem_range, List.mem_map,
    List.mem_range'_1, Prod.mk.injEq]
  constructor
  · rintro ⟨a, ha, b, hb, rfl, rfl⟩
    omega
  · intro h
    exact ⟨i, by omega, j, by omega, rfl, rfl⟩

/-- The spans of a table ascend by start and then by stop. -/
theorem spans_ascend (max : Nat) :
    (spans max).Pairwise fun s t => s.1 < t.1 ∨ s.1 = t.1 ∧ s.2 < t.2 := by
  unfold spans
  rw [List.pairwise_flatMap]
  constructor
  · intro i _
    rw [List.pairwise_map]
    have hstops : (List.range' i (max + 1 - i)).Pairwise (· < ·) :=
      List.pairwise_lt_range'
    exact hstops.imp fun hlt => Or.inr ⟨rfl, hlt⟩
  · refine List.pairwise_lt_range.imp fun hlt s hs t ht => ?_
    obtain ⟨j, -, rfl⟩ := List.mem_map.1 hs
    obtain ⟨k, -, rfl⟩ := List.mem_map.1 ht
    exact Or.inl hlt

theorem nodup_spans (max : Nat) : (spans max).Nodup := by
  refine (spans_ascend max).imp fun hlt heq => ?_
  subst heq
  omega

-- ============================================================= entries

/-- The spans that have an entry. -/
theorem index?_eq_some {k : Nat} :
    index? max i j = some k
      ↔ i ≤ j ∧ j ≤ max ∧ k = rowStart max i + (j - i) := by
  unfold index?
  split
  · rename_i h
    simp only [Bool.or_eq_true, decide_eq_true_eq] at h
    simp only [reduceCtorEq, false_iff]
    omega
  · rename_i h
    simp only [Bool.or_eq_true, decide_eq_true_eq] at h
    simp only [Option.some.injEq]
    omega

/-- Entries stand within the table. -/
theorem index?_lt {k : Nat} (h : index? max i j = some k) :
    k < spanCount max := by
  obtain ⟨hij, hj, rfl⟩ := index?_eq_some.1 h
  have hle : rowStart max i + (max + 1 - i) ≤ rowStart max (max + 1) :=
    rowStart_add_le (by omega) (Nat.le_refl _)
  rw [rowStart_max] at hle
  omega

/-- Spans outside the table have no entry. -/
theorem index?_eq_none :
    index? max i j = none ↔ ¬ (i ≤ j ∧ j ≤ max) := by
  constructor
  · intro h hspan
    rw [index?_eq_some.2 ⟨hspan.1, hspan.2, rfl⟩] at h
    cases h
  · intro h
    by_contra hne
    obtain ⟨k, hk⟩ := Option.ne_none_iff_exists'.1 hne
    obtain ⟨hij, hj, -⟩ := index?_eq_some.1 hk
    exact h ⟨hij, hj⟩

/-- Entries stand in the order of their spans. -/
theorem index?_lt_iff {a b k m : Nat} (h : index? max i j = some k)
    (h' : index? max a b = some m) : k < m ↔ i < a ∨ i = a ∧ j < b := by
  obtain ⟨hij, hj, rfl⟩ := index?_eq_some.1 h
  obtain ⟨hab, hb, rfl⟩ := index?_eq_some.1 h'
  rcases Nat.lt_trichotomy i a with hlt | rfl | hgt
  · have hrow : rowStart max i + (max + 1 - i) ≤ rowStart max a :=
      rowStart_add_le hlt (by omega)
    omega
  · omega
  · have hrow : rowStart max a + (max + 1 - a) ≤ rowStart max i :=
      rowStart_add_le hgt (by omega)
    omega

/-- No two spans share an entry. -/
theorem index?_inj {a b k : Nat} (h : index? max i j = some k)
    (h' : index? max a b = some k) : i = a ∧ j = b := by
  have hlt := index?_lt_iff h h'
  have hgt := index?_lt_iff h' h
  omega

/-- The entries of a row stand one after the other. -/
theorem map_index?_row (h : i ≤ max) :
    (List.range' i (max + 1 - i)).map (index? max i)
      = (List.range' (rowStart max i) (max + 1 - i)).map some := by
  refine List.ext_getElem (by simp) fun n hn hn' => ?_
  simp only [List.length_map, List.length_range'] at hn
  simp only [List.getElem_map, List.getElem_range', Nat.one_mul]
  exact index?_eq_some.2 ⟨by omega, by omega, by omega⟩

/-- The entries of all spans stand one after the other and fill the table. -/
theorem map_index?_spans (max : Nat) :
    (spans max).map (fun s => index? max s.1 s.2)
      = (List.range (spanCount max)).map some := by
  have hrow : ∀ i ∈ List.range (max + 1),
      ((List.range' i (max + 1 - i)).map fun j => (i, j)).map
          (fun s => index? max s.1 s.2)
        = (List.range' (rowStart max i) (max + 1 - i)).map some := by
    intro i hi
    rw [List.mem_range] at hi
    rw [List.map_map]
    exact map_index?_row (by omega)
  unfold spans
  rw [List.map_flatMap, List.flatMap_congr hrow, ← List.map_flatMap,
    flatMap_rows (Nat.le_refl _), rowStart_max]

/-- Every entry of the table is that of a span. -/
theorem exists_index?_eq {k : Nat} (h : k < spanCount max) :
    ∃ i j, index? max i j = some k := by
  have hk : some k ∈ (spans max).map fun s => index? max s.1 s.2 := by
    rw [map_index?_spans]
    exact List.mem_map_of_mem (List.mem_range.2 h)
  obtain ⟨s, -, hs⟩ := List.mem_map.1 hk
  exact ⟨s.1, s.2, hs⟩

-- =============================================================== reads

@[simp]
theorem max_modify (t : Triangle α) (i j : Nat) (f : α → α) :
    (t.modify i j f).max = t.max := by
  unfold modify
  split <;> rfl

@[simp]
theorem max_set (t : Triangle α) (i j : Nat) (x : α) :
    (t.set i j x).max = t.max :=
  max_modify ..

/-- The spans of the table are those with `i ≤ j ≤ max`. -/
theorem hasSpan_iff (t : Triangle α) :
    t.hasSpan i j = true ↔ i ≤ j ∧ j ≤ t.max := by
  unfold hasSpan
  rw [Option.isSome_iff_exists]
  constructor
  · intro h
    obtain ⟨k, hk⟩ := h
    obtain ⟨hij, hj, -⟩ := index?_eq_some.1 hk
    exact ⟨hij, hj⟩
  · intro h
    obtain ⟨hij, hj⟩ := h
    exact ⟨_, index?_eq_some.2 ⟨hij, hj, rfl⟩⟩

/-- The table has room for every entry it tells the place of. -/
theorem place_lt_size {t : Triangle α} {k : Nat}
    (h : index? t.max i j = some k) : k < t.entries.size :=
  t.size_eq ▸ index?_lt h

/-- There is an entry for every span of the table, and for no other. -/
theorem isSome_get? (t : Triangle α) :
    (t.get? i j).isSome = t.hasSpan i j := by
  unfold get? hasSpan
  cases h : index? t.max i j with
  | none => rfl
  | some k => simp [place_lt_size h]

theorem get?_eq_none (t : Triangle α) :
    t.get? i j = none ↔ ¬ (i ≤ j ∧ j ≤ t.max) := by
  rw [← Option.not_isSome_iff_eq_none, isSome_get?, hasSpan_iff]

theorem exists_get?_eq (t : Triangle α) (hij : i ≤ j) (hj : j ≤ t.max) :
    ∃ x, t.get? i j = some x := by
  rw [← Option.isSome_iff_exists, isSome_get?]
  exact t.hasSpan_iff.2 ⟨hij, hj⟩

/-- A new table has its one entry for every span. -/
theorem get?_replicate (x : α) (i j : Nat) :
    (replicate max x).get? i j
      = if i ≤ j ∧ j ≤ max then some x else none := by
  by_cases hspan : i ≤ j ∧ j ≤ max
  · have hidx := index?_eq_some.2 ⟨hspan.1, hspan.2, rfl⟩
    have hlt := index?_lt hidx
    rw [if_pos hspan]
    unfold get? replicate
    rw [hidx]
    simp [hlt]
  · rw [if_neg hspan]
    exact (get?_eq_none _).2 hspan

/-- Outside the table nothing is changed. -/
theorem modify_of_none {t : Triangle α} (h : index? t.max i j = none)
    (f : α → α) : t.modify i j f = t := by
  unfold modify
  rw [h]

/-- Changing the entry of a span changes what is read for that span
alone. -/
theorem get?_modify (t : Triangle α) (f : α → α) (i j a b : Nat) :
    (t.modify i j f).get? a b
      = if a = i ∧ b = j then (t.get? a b).map f else t.get? a b := by
  cases h : index? t.max i j with
  | none =>
      rw [modify_of_none h]
      split
      case isFalse => rfl
      case isTrue hab =>
        obtain ⟨rfl, rfl⟩ := hab
        simp [get?, h]
  | some k =>
      have hmod : (t.modify i j f).get? a b
          = (index? t.max a b).bind fun m => (t.entries.modify k f)[m]? := by
        unfold get?
        rw [max_modify]
        unfold modify
        rw [h]
      rw [hmod]
      split
      case isTrue hab =>
        obtain ⟨rfl, rfl⟩ := hab
        simp [get?, h, Array.getElem?_modify]
      case isFalse hab =>
        unfold get?
        cases h' : index? t.max a b with
        | none => rfl
        | some m =>
            have hkm : k ≠ m := by
              intro heq
              subst heq
              obtain ⟨rfl, rfl⟩ := index?_inj h h'
              exact hab ⟨rfl, rfl⟩
            simp [Array.getElem?_modify, hkm]

/-- What is read after an entry has been set. -/
theorem get?_set (t : Triangle α) (x : α) (i j a b : Nat) :
    (t.set i j x).get? a b
      = if a = i ∧ b = j then (t.get? a b).map fun _ => x else t.get? a b :=
  get?_modify t _ i j a b

-- ============================================================== writes

/-- A write to the entry of a span. -/
inductive Write (α : Type) where
  | set (i j : Nat) (x : α)
  | modify (i j : Nat) (f : α → α)

namespace Write

/-- The span whose entry is written. -/
def span : Write α → Nat × Nat
  | set i j _ => (i, j)
  | modify i j _ => (i, j)

/-- What is written where an entry stands. -/
def value : Write α → α → α
  | set _ _ x, _ => x
  | modify _ _ f, x => f x

/-- The table after a write. -/
def run (t : Triangle α) : Write α → Triangle α
  | set i j x => t.set i j x
  | modify i j f => t.modify i j f

/-- The values that are written to the entry of a span, one after the other,
if `x` stands there before. -/
def valuesAt (s : Nat × Nat) (x : α) : List (Write α) → List α
  | [] => []
  | w :: ws =>
    if w.span = s then w.value x :: valuesAt s (w.value x) ws
    else valuesAt s x ws

/-- Both ways to write change the entry of a span. -/
theorem run_eq_modify (t : Triangle α) (w : Write α) :
    w.run t = t.modify w.span.1 w.span.2 w.value := by
  cases w <;> rfl

@[simp]
theorem max_run (t : Triangle α) (w : Write α) : (w.run t).max = t.max := by
  rw [run_eq_modify, max_modify]

@[simp]
theorem max_foldl_run (t : Triangle α) (ws : List (Write α)) :
    (ws.foldl run t).max = t.max := by
  induction ws generalizing t with
  | nil => rfl
  | cons w ws ih => rw [List.foldl_cons, ih, max_run]

/-- A write to a span outside the table changes nothing. -/
theorem run_of_not_hasSpan {t : Triangle α} {w : Write α}
    (h : t.hasSpan w.span.1 w.span.2 = false) : w.run t = t := by
  rw [← Bool.not_eq_true, hasSpan_iff, ← index?_eq_none] at h
  rw [run_eq_modify, modify_of_none h]

/-- What is read after a write. -/
theorem get?_run (t : Triangle α) (w : Write α) (i j : Nat) :
    (w.run t).get? i j
      = if w.span = (i, j) then (t.get? i j).map w.value
        else t.get? i j := by
  rw [run_eq_modify, get?_modify]
  refine if_congr ?_ rfl rfl
  rw [Prod.ext_iff, eq_comm, @eq_comm _ j]

/-- What is read is what was written last. -/
theorem get?_foldl_run (t : Triangle α) (ws : List (Write α)) (i j : Nat) :
    (ws.foldl run t).get? i j
      = (t.get? i j).map fun x => (valuesAt (i, j) x ws).getLastD x := by
  induction ws generalizing t with
  | nil => simp [valuesAt]
  | cons w ws ih =>
      rw [List.foldl_cons, ih, get?_run]
      by_cases hspan : w.span = (i, j)
      · rw [if_pos hspan, Option.map_map]
        refine congrArg (Option.map · _) (funext fun x => ?_)
        rw [valuesAt, if_pos hspan, List.getLastD_cons, Function.comp_apply]
      · simp only [valuesAt, if_neg hspan]

/-- What is read of a table with one entry for all spans after writes. -/
theorem get?_foldl_run_replicate (max : Nat) (x : α) (ws : List (Write α))
    (i j : Nat) :
    (ws.foldl run (replicate max x)).get? i j
      = if i ≤ j ∧ j ≤ max then some ((valuesAt (i, j) x ws).getLastD x)
        else none := by
  rw [get?_foldl_run, get?_replicate]
  split <;> rfl

end Write

end LatticeParsing.Triangle
