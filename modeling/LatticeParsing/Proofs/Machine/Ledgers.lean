/-
Ledgers in tables with bounds.

The machine keeps a ledger whose cells stand in a table that it reads and
writes at computed places. Where it has room for the table, it makes
constituents as the ledger does (`ensure?_eq`). Recording reads no table of
spans; it would stop only if the index were wrong, and that it never is.
-/
import LatticeParsing.Proofs.Chart.Ledgers
import LatticeParsing.Proofs.Machine.Charts

namespace LatticeParsing.Machine

/-- The ledger without constituents, for spans up to `nodes`. -/
def emptyLedger? (top nodes : Nat) : Option Ledger := do
  let cells ← allocate? top nodes []
  return ⟨⟨cells, #[], 0⟩, ∅⟩

/-- The constituent with a left-hand side over a span, which is made if it is
missing. -/
def ensure? (top : Nat) (r : Ledger) (i j : Nat) (lhs : Symbol) :
    Option (Option (Ledger × Nat × Bool)) := do
  match ← read? top r.forest.cells i j with
  | none => return none
  | some cell =>
    match cell.find? lhs with
    | some id => return some (r, id, false)
    | none =>
      let id := r.forest.constituents.size
      let cells ← write? top r.forest.cells i j fun _ => cell.insert lhs id
      let made := r.forest.constituents.push ⟨id, lhs, i, j, #[]⟩
      return some (⟨⟨cells, made, r.forest.derivationCount⟩, r.seen⟩, id, true)

variable {top n i j id : Nat} {r : Ledger} {f f' : Forest} {d : Derivation}

/-- The machine makes constituents as the ledger does. -/
theorem ensure?_eq (h : Room top r.forest.cells.max) (i j : Nat)
    (lhs : Symbol) : ensure? top r i j lhs = some (r.ensure? i j lhs) := by
  unfold ensure? Ledger.ensure? Forest.ensure?
  rw [read?_eq h]
  simp only [Option.bind_eq_bind, Option.bind_some]
  cases hcell : r.forest.cells.get? i j with
  | none => rfl
  | some cell =>
      dsimp only
      cases hfind : cell.find? lhs with
      | some id => rfl
      | none =>
          rw [write?_eq h]
          rfl

/-- Whether a ledger keeps a forest for spans up to `n`. -/
structure Follows (n : Nat) (r : Ledger) (f : Forest) : Prop
    extends r.Follows f where
  max_eq : f.cells.max = n

namespace Follows

theorem empty (hroom : Room top n) :
    Returns (emptyLedger? top n) (Follows n · (Forest.empty n)) := by
  unfold emptyLedger?
  rw [allocate?_eq hroom]
  exact ⟨_, rfl, .empty n, rfl⟩

theorem ensure?_none (h : Follows n r f) (hroom : Room top n) {lhs : Symbol}
    (hnone : f.ensure? i j lhs = none) :
    Machine.ensure? top r i j lhs = some none := by
  rw [ensure?_eq (by rwa [h.forest_eq, h.max_eq]), h.toFollows.ensure?_eq,
    hnone]
  rfl

theorem ensure?_some (h : Follows n r f) (hroom : Room top n) {lhs : Symbol}
    {made : Bool} (hsome : f.ensure? i j lhs = some (f', id, made)) :
    ∃ r', Machine.ensure? top r i j lhs = some (some (r', id, made))
      ∧ Follows n r' f' := by
  refine ⟨⟨f', r.seen⟩, ?_, h.toFollows.ensure? hsome, ?_⟩
  · rw [ensure?_eq (by rwa [h.forest_eq, h.max_eq]), h.toFollows.ensure?_eq,
      hsome]
    rfl
  · exact (Forest.max_ensure? hsome).trans h.max_eq

/-- The machine records a derivation. -/
theorem record? (h : Follows n r f) (id : Nat) (d : Derivation) :
    Returns (r.record? id d) fun a =>
      a.2 = (f.record id d).2 ∧ Follows n a.1 (f.record id d).1 := by
  obtain ⟨r', hrecord, hr'⟩ := h.toFollows.record? id d
  exact ⟨_, hrecord, rfl, hr', (f.max_record id d).trans h.max_eq⟩

end Follows

end LatticeParsing.Machine
