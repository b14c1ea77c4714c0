/-
Tables over spans.

A table holds one entry for every span from `i` to `j` with `i ≤ j ≤ max`.
The entries stand row by row in one array, which has no room for other
spans.
-/
namespace LatticeParsing

/-- The number of spans up to `max`. -/
def spanCount (max : Nat) : Nat := (max + 1) * (max + 2) / 2

/-- A table over the spans up to `max`. -/
structure Triangle (α : Type) where
  max : Nat
  entries : Array α
  size_eq : entries.size = spanCount max

namespace Triangle

variable {α : Type}

/-- Where the row of spans that start at `i` begins. -/
def rowStart (max i : Nat) : Nat := i * (max + 1) - i * (i - 1) / 2

/-- Where the entry of a span stands; none if the span is outside the
table. -/
def index? (max i j : Nat) : Option Nat :=
  if j < i || max < j then none else some (rowStart max i + (j - i))

/-- The table with the same entry for every span. -/
def replicate (max : Nat) (entry : α) : Triangle α where
  max := max
  entries := Array.replicate (spanCount max) entry
  size_eq := Array.size_replicate

/-- The entry of a span. -/
def get? (t : Triangle α) (i j : Nat) : Option α :=
  (index? t.max i j).bind fun k => t.entries[k]?

/-- Whether the table has an entry for a span. -/
def hasSpan (t : Triangle α) (i j : Nat) : Bool := (index? t.max i j).isSome

/-- Changes the entry of a span. Outside the table there is nothing to
change. -/
def modify (t : Triangle α) (i j : Nat) (f : α → α) : Triangle α :=
  match index? t.max i j with
  | none => t
  | some k =>
    { t with
      entries := t.entries.modify k f
      size_eq := (Array.size_modify ..).trans t.size_eq }

/-- Sets the entry of a span. -/
def set (t : Triangle α) (i j : Nat) (entry : α) : Triangle α :=
  t.modify i j fun _ => entry

/-- The spans of the table, by their start and then by their end. -/
def spans (max : Nat) : List (Nat × Nat) :=
  (List.range (max + 1)).flatMap fun i =>
    (List.range' i (max + 1 - i)).map fun j => (i, j)

end Triangle

end LatticeParsing
