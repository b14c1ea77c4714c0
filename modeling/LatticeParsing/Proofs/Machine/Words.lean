/-
Computing where numbers and tables have bounds.

A machine's numbers end at a greatest one, `top`. It stops where a sum or a
product would pass `top`, where a difference would lie below zero, where an
entry outside of a table is read or written, and where a text is cut within a
character. A computation on it is given as an option: `none` is where the
machine stops.

That a machine does what a function says is shown by `Returns`, one operation
after the other. A loop does what a fold says if each of its rounds does what
the function that is folded says (`returns_foldlM`).
-/
import Mathlib.Data.List.Basic

namespace LatticeParsing.Machine

variable {α β σ τ : Type}

-- =========================================================== operations

/-- A sum. -/
def add? (top a b : Nat) : Option Nat :=
  if a + b ≤ top then some (a + b) else none

/-- A product. -/
def mul? (top a b : Nat) : Option Nat :=
  if a * b ≤ top then some (a * b) else none

/-- A difference. -/
def sub? (a b : Nat) : Option Nat := if b ≤ a then some (a - b) else none

/-- Changes the entry of a table at an index. -/
def change? (xs : Array α) (k : Nat) (f : α → α) : Option (Array α) :=
  if k < xs.size then some (xs.modify k f) else none

/-- What is collected from the elements of a list, in order. -/
def collect? (f : α → Option (List β)) : List α → Option (List β)
  | [] => some []
  | x :: xs => do
    let ys ← f x
    let rest ← collect? f xs
    return ys ++ rest

-- ============================================================== results

/-- The machine does not stop and comes to a result of which `P` holds. -/
def Returns (run : Option α) (P : α → Prop) : Prop :=
  ∃ x, run = some x ∧ P x

theorem Returns.bind {run : Option α} {next : α → Option β} {P : α → Prop}
    {Q : β → Prop} (h : Returns run P) (hnext : ∀ x, P x → Returns (next x) Q) :
    Returns (run >>= next) Q := by
  obtain ⟨x, rfl, hx⟩ := h
  exact hnext x hx

theorem Returns.imp {run : Option α} {P Q : α → Prop} (h : Returns run P)
    (hPQ : ∀ x, P x → Q x) : Returns run Q := by
  obtain ⟨x, hx, hP⟩ := h
  exact ⟨x, hx, hPQ x hP⟩

theorem add?_eq {top a b : Nat} (h : a + b ≤ top) :
    add? top a b = some (a + b) := if_pos h

theorem mul?_eq {top a b : Nat} (h : a * b ≤ top) :
    mul? top a b = some (a * b) := if_pos h

theorem sub?_eq {a b : Nat} (h : b ≤ a) : sub? a b = some (a - b) := if_pos h

theorem change?_eq {xs : Array α} {k : Nat} (h : k < xs.size) (f : α → α) :
    change? xs k f = some (xs.modify k f) := if_pos h

/-- Where nothing stops at an element, everything is collected. -/
theorem collect?_eq {f : α → Option (List β)} {g : α → List β} {xs : List α}
    (h : ∀ x ∈ xs, f x = some (g x)) : collect? f xs = some (xs.flatMap g) := by
  induction xs with
  | nil => rfl
  | cons x xs ih =>
      rw [List.forall_mem_cons] at h
      unfold collect?
      rw [h.1, ih h.2]
      rfl

/-- A loop keeps what each of its rounds keeps. -/
theorem returns_foldlM {R : σ → τ → Prop} {f : σ → α → Option σ}
    {g : τ → α → τ} {xs : List α}
    (hround : ∀ s t, ∀ x ∈ xs, R s t → Returns (f s x) (R · (g t x)))
    {s : σ} {t : τ} (h : R s t) :
    Returns (xs.foldlM f s) (R · (xs.foldl g t)) := by
  induction xs generalizing s t with
  | nil => exact ⟨s, rfl, h⟩
  | cons x xs ih =>
      rw [List.foldlM_cons, List.foldl_cons]
      exact (hround s t x (List.mem_cons_self ..) h).bind fun s' h' =>
        ih (fun s t y hy => hround s t y (List.mem_cons_of_mem _ hy)) h'

/-- A loop over numbers comes to what holds behind its last round. -/
theorem returns_range {P : Nat → σ → Prop} {f : σ → Nat → Option σ} {n : Nat}
    (hround : ∀ s, ∀ i < n, P i s → Returns (f s i) (P (i + 1))) {s : σ}
    (h : P 0 s) : Returns ((List.range n).foldlM f s) (P n) := by
  induction n with
  | zero => exact ⟨s, rfl, h⟩
  | succ n ih =>
      rw [List.range_succ, List.foldlM_append]
      refine (ih fun s i hi => hround s i (Nat.lt_succ_of_lt hi)).bind
        fun s' hs' => ?_
      simpa using hround s' n (Nat.lt_succ_self n) hs'

end LatticeParsing.Machine
