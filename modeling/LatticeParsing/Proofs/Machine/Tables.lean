/-
Tables whose places can be counted.

A write to a table first looks for the place of an entry. Where the machine
can count to `(max + 1) * (max + 2)` it finds the places of all spans up to
`max`, so it never stops at a write, and it tells whether there is an entry
(`put?_eq`). A table on the machine is then the table that its writes are
defined to make (`fill?_eq`), and keeps its spans apart because that one does
(`tables_keep_spans_apart`).
-/
import LatticeParsing.Proofs.Machine.Charts

namespace LatticeParsing.Machine

open Triangle

variable {α : Type} {top max : Nat}

-- ================================================================ writes

/-- Writes to the entry of a span, and tells whether there is one. -/
def put? (top : Nat) (t : Triangle α) (w : Write α) :
    Option (Bool × Triangle α) := do
  let entry ← read? top t w.span.1 w.span.2
  let t ← write? top t w.span.1 w.span.2 w.value
  return (entry.isSome, t)

/-- The table that writes make of one with the same entry for every span. -/
def fill? (top max : Nat) (x : α) (ws : List (Write α)) :
    Option (Triangle α) := do
  let t ← allocate? top max x
  ws.foldlM (fun t w => (put? top t w).map Prod.snd) t

/-- The machine writes to a table. -/
theorem put?_eq {t : Triangle α} (h : Room top t.max) (w : Write α) :
    put? top t w = some (t.hasSpan w.span.1 w.span.2, w.run t) := by
  unfold put?
  rw [read?_eq h, write?_eq h, ← isSome_get?, Write.run_eq_modify]
  rfl

/-- The machine fills a table. -/
theorem fill?_eq (h : Room top max) (x : α) (ws : List (Write α)) :
    fill? top max x ws = some (ws.foldl Write.run (.replicate max x)) := by
  have hputs : ∀ t : Triangle α, Room top t.max →
      ws.foldlM (fun t w => (put? top t w).map Prod.snd) t
        = some (ws.foldl Write.run t) := by
    induction ws with
    | nil => exact fun t _ => rfl
    | cons w ws ih =>
        intro t ht
        rw [List.foldlM_cons, List.foldl_cons, put?_eq ht]
        exact ih (w.run t) (by rwa [Write.max_run])
  unfold fill?
  rw [allocate?_eq h]
  exact hputs _ h

/-- A machine that can count to `(max + 1) * (max + 2)` keeps the spans of a
table up to `max` apart. It computes the places of all spans, and no sum,
product or difference on the way leaves its numbers. The spans with
`i ≤ j ≤ max` have a place and all others have none; the places are the numbers
below `(max + 1) * (max + 2) / 2`, each the place of one span, and they stand
in the order of the spans, by start and then by end.

So every span has an entry of its own. Whatever is written to a table, it is
read again: for a span of the table what was written last to that very span,
or else what the table began with, and for any other span nothing. A further
write tells whether its span has an entry. If it has none, the write changes
nothing; and whether or not it has one, what is read for any other span is the
same as before. -/
theorem tables_keep_spans_apart (top max : Nat)
    (hroom : (max + 1) * (max + 2) ≤ top) :
    (∀ i j, place? top max i j = some (index? max i j))
      ∧ (∀ i j, index? max i j = none ↔ ¬ (i ≤ j ∧ j ≤ max))
      ∧ (∀ i j k, index? max i j = some k →
          k < (max + 1) * (max + 2) / 2)
      ∧ (∀ k < (max + 1) * (max + 2) / 2,
          ∃! s : Nat × Nat, index? max s.1 s.2 = some k)
      ∧ (∀ i j a b k m, index? max i j = some k → index? max a b = some m →
          (k < m ↔ i < a ∨ i = a ∧ j < b))
      ∧ ∀ (α : Type) (x : α) (ws : List (Write α)),
          let t := ws.foldl Write.run (.replicate max x)
          fill? top max x ws = some t
            ∧ (∀ i j, read? top t i j = some (t.get? i j)
                ∧ t.get? i j
                  = if i ≤ j ∧ j ≤ max then
                      some ((Write.valuesAt (i, j) x ws).getLastD x)
                    else none)
            ∧ ∀ w : Write α,
                put? top t w = some (t.hasSpan w.span.1 w.span.2, w.run t)
                ∧ (t.hasSpan w.span.1 w.span.2 = true
                    ↔ w.span.1 ≤ w.span.2 ∧ w.span.2 ≤ max)
                ∧ (t.hasSpan w.span.1 w.span.2 = false → w.run t = t)
                ∧ ∀ i j, (i, j) ≠ w.span →
                    (w.run t).get? i j = t.get? i j := by
  refine ⟨place?_eq hroom, fun i j => index?_eq_none,
    fun i j k => index?_lt, fun k hk => ?_,
    fun i j a b k m => index?_lt_iff, fun α x ws => ?_⟩
  · obtain ⟨i, j, hij⟩ := exists_index?_eq hk
    refine ⟨(i, j), hij, fun s hs => ?_⟩
    obtain ⟨hi, hj⟩ := index?_inj hs hij
    exact Prod.ext hi hj
  · intro t
    have hmax : t.max = max := Write.max_foldl_run _ ws
    have hroomt : Room top t.max := by rwa [hmax]
    refine ⟨fill?_eq hroom x ws, fun i j => ⟨read?_eq hroomt i j,
      Write.get?_foldl_run_replicate max x ws i j⟩, fun w =>
      ⟨put?_eq hroomt w, ?_, Write.run_of_not_hasSpan, fun i j hne => ?_⟩⟩
    · rw [hasSpan_iff, hmax]
    · rw [Write.get?_run, if_neg hne.symm]

/-- A machine that counts with 64 bits keeps the spans of its greatest table
apart. -/
theorem tables_keep_spans_apart_64_bits :
    (4294967294 + 1) * (4294967294 + 2) ≤ 2 ^ 64 - 1
      ∧ ∃ t, fill? (2 ^ 64 - 1) 4294967294 0
            [.set 1 2 7, .set 2 1 9, .modify 1 2 (· + 1)] = some t
          ∧ read? (2 ^ 64 - 1) t 1 2 = some (some 8)
          ∧ read? (2 ^ 64 - 1) t 2 2 = some (some 0)
          ∧ read? (2 ^ 64 - 1) t 2 1 = some none := by
  obtain ⟨-, -, -, -, -, htables⟩ :=
    tables_keep_spans_apart (2 ^ 64 - 1) 4294967294 (by decide)
  obtain ⟨hfill, hread, -⟩ := htables Nat 0
    [.set 1 2 7, .set 2 1 9, .modify 1 2 (· + 1)]
  refine ⟨by decide, _, hfill, ?_, ?_, ?_⟩
  · rw [(hread 1 2).1, (hread 1 2).2, if_pos (by decide)]
    rfl
  · rw [(hread 2 2).1, (hread 2 2).2, if_pos (by decide)]
    rfl
  · rw [(hread 2 1).1, (hread 2 1).2, if_neg (by decide)]

end LatticeParsing.Machine
