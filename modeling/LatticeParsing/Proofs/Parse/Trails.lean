/-
Trails through a lattice and the constituents over it.

A trail is a sequence of steps that run contiguously from node to node. A
step crosses an arc with a terminal, told by its place among the arcs that
leave a node since parallel arcs may be equal, or a constituent that is
listed over the span from its start to its end. A trail gives all that an
item holds: the labels that lead to its position, its antecedents, and its
path (`Carries`).
-/
import LatticeParsing.Proofs.Grammar.Walks
import LatticeParsing.Chart.ItemChart

namespace LatticeParsing

-- =============================================================== steps

/-- A step of a trail: an arc, with its place among those that leave a node,
or a constituent, with its end and its entry in the cell. -/
inductive Step where
  | arc (place : Nat) (a : Arc)
  | constituent (stop : Nat) (lhs : Symbol) (id : Nat)
  deriving DecidableEq

namespace Step

/-- Where the step leads. -/
def stop : Step → Nat
  | arc _ a => a.head
  | constituent stop _ _ => stop

/-- The symbol that is matched. -/
def label : Step → Symbol
  | arc _ a => a.label
  | constituent _ lhs _ => lhs

/-- The constituent that is crossed. -/
def id? : Step → Option Nat
  | arc _ _ => none
  | constituent _ _ id => some id

/-- The cost of the arc that is crossed. -/
def cost? : Step → Option Cost
  | arc _ a => some a.cost
  | constituent _ _ _ => none

/-- The step as the path of an item shows it. -/
def pathStep : Step → PathStep
  | arc _ a => .terminal a.label
  | constituent _ _ _ => .nonterminal

/-- Whether the step can be made from a node: over an arc that leaves it and
has a terminal for its label, or over a constituent with a nonterminal for
its left-hand side that is listed there. -/
def Crosses (l : Lattice) (f : Forest) (i : Nat) : Step → Prop
  | arc place a => (l.arcsFrom i)[place]? = some a ∧ 0 ≤ a.label
  | constituent stop lhs id => (lhs, id) ∈ f.cellAt i stop ∧ lhs < 0

end Step

-- ============================================================== trails

/-- Steps that run from node `i` to node `j`. -/
def Trail (l : Lattice) (f : Forest) : Nat → List Step → Nat → Prop
  | i, [], j => i = j
  | i, s :: ts, j => s.Crosses l f i ∧ Trail l f s.stop ts j

namespace Trail

/-- The symbols that a trail matches. -/
def labels (ts : List Step) : List Symbol := ts.map Step.label

/-- The constituents that a trail crosses, in order. -/
def antecedents (ts : List Step) : List Nat := ts.filterMap Step.id?

/-- The sum of the costs of the arcs, from left to right. -/
def cost (ts : List Step) : Cost :=
  (ts.filterMap Step.cost?).foldl (· + ·) .zero

/-- The path of a trail. -/
def path (ts : List Step) : SourcePath := ⟨cost ts, ts.map Step.pathStep⟩

theorem labels_concat (ts : List Step) (s : Step) :
    labels (ts ++ [s]) = labels ts ++ [s.label] :=
  List.map_append

theorem path_concat_arc (ts : List Step) (n : Nat) (a : Arc) :
    path (ts ++ [.arc n a]) = (path ts).crossArc a := by
  simp [path, cost, Step.cost?, Step.pathStep, SourcePath.crossArc]

theorem path_concat_constituent (ts : List Step) (j : Nat) (lhs : Symbol)
    (id : Nat) :
    path (ts ++ [.constituent j lhs id]) = (path ts).crossConstituent := by
  have hcost : cost (ts ++ [Step.constituent j lhs id]) = cost ts := by
    unfold cost
    rw [List.filterMap_append]
    exact congrArg _ (List.append_nil _)
  simp [path, hcost, Step.pathStep, SourcePath.crossConstituent]

@[simp]
theorem antecedents_constituent_cons (j : Nat) (lhs : Symbol) (id : Nat)
    (ts : List Step) :
    antecedents (.constituent j lhs id :: ts) = id :: antecedents ts := rfl

theorem antecedents_concat_arc (ts : List Step) (n : Nat) (a : Arc) :
    antecedents (ts ++ [.arc n a]) = antecedents ts := by
  simp [antecedents, Step.id?]

theorem antecedents_concat_constituent (ts : List Step) (j : Nat)
    (lhs : Symbol) (id : Nat) :
    antecedents (ts ++ [.constituent j lhs id]) = antecedents ts ++ [id] := by
  simp [antecedents, Step.id?]

variable {l : Lattice} {f : Forest} {i j k : Nat} {ts us : List Step}
  {s : Step}

/-- A trail passes a node behind each of its steps. -/
theorem append_iff : Trail l f i (ts ++ us) j
    ↔ ∃ k, Trail l f i ts k ∧ Trail l f k us j := by
  induction ts generalizing i with
  | nil =>
      constructor
      · exact fun h => ⟨i, rfl, h⟩
      · intro h
        obtain ⟨k, rfl, hus⟩ := h
        exact hus
  | cons t ts ih =>
      show t.Crosses l f i ∧ Trail l f t.stop (ts ++ us) j ↔ _
      rw [ih]
      constructor
      · intro h
        obtain ⟨ht, k, hts, hus⟩ := h
        exact ⟨k, ⟨ht, hts⟩, hus⟩
      · intro h
        obtain ⟨k, ⟨ht, hts⟩, hus⟩ := h
        exact ⟨ht, k, hts, hus⟩

/-- A trail that ends with a step. -/
theorem concat_iff : Trail l f i (ts ++ [s]) j
    ↔ ∃ k, Trail l f i ts k ∧ s.Crosses l f k ∧ s.stop = j :=
  append_iff

/-- A trail has one end. -/
theorem stop_unique (h : Trail l f i ts j) (h' : Trail l f i ts k) :
    j = k := by
  induction ts generalizing i with
  | nil => exact h.symm.trans h'
  | cons t ts ih => exact ih h.2 h'.2

/-- Constituents stand over spans of the lattice that are not empty. -/
def Inside (l : Lattice) (f : Forest) : Prop :=
  ∀ i j, ∀ e ∈ f.cellAt i j, i < j ∧ j ≤ l.sourceLength

/-- Steps lead forward within the lattice. -/
theorem forward_of_crosses (hf : Inside l f)
    (h : s.Crosses l f i) : i < s.stop ∧ s.stop ≤ l.sourceLength := by
  cases s with
  | arc n a =>
      obtain ⟨hlt, ha⟩ := List.getElem?_eq_some_iff.1 h.1
      have hfits := l.fits_arcsFrom (ha ▸ List.getElem_mem hlt)
      have hcount := l.nodeCount_eq
      obtain ⟨-, hforward, hbound⟩ := hfits
      exact ⟨hforward, by show a.head ≤ _; omega⟩
  | constituent stop lhs id => exact hf i stop (lhs, id) h.1

/-- Trails lead forward. -/
theorem le (hf : Inside l f) (h : Trail l f i ts j) : i ≤ j := by
  induction ts generalizing i with
  | nil => exact Nat.le_of_eq h
  | cons t ts ih =>
      exact Nat.le_trans (Nat.le_of_lt (forward_of_crosses hf h.1).1) (ih h.2)

/-- Trails that make a step end within the lattice. -/
theorem le_sourceLength (hf : Inside l f) (h : Trail l f i ts j) :
    ts = [] ∨ j ≤ l.sourceLength := by
  induction ts generalizing i with
  | nil => exact Or.inl rfl
  | cons t ts ih =>
      refine Or.inr ?_
      rcases ih h.2 with rfl | hj
      · have hstop : t.stop = j := h.2
        exact hstop ▸ (forward_of_crosses hf h.1).2
      · exact hj

/-- Only the trail without steps stays where it is. -/
theorem eq_nil (hf : Inside l f) (h : Trail l f i ts i) : ts = [] := by
  cases ts with
  | nil => rfl
  | cons t ts =>
      have hlt := (forward_of_crosses hf h.1).1
      have hle := le hf h.2
      omega

end Trail

-- =============================================================== items

/-- The item over `i` to `j` that a trail makes: at the position to which its
labels lead, with its antecedents and its path. -/
def Carries (g : GrammarView) (i j : Nat) (ts : List Step) (x : Item) : Prop :=
  ∃ p, g.walk? (Trail.labels ts) = some p
    ∧ x = ⟨i, j, p, Trail.antecedents ts, Trail.path ts⟩

/-- Whether a chart has an item for a trail: its labels can be walked, and
if it is a constituent alone, something can follow. -/
def Holds (g : GrammarView) (ts : List Step) : Prop :=
  ∃ p, g.walk? (Trail.labels ts) = some p
    ∧ ∀ stop lhs id, ts = [.constituent stop lhs id] → p.hasExtensions = true

namespace Carries

variable {g : GrammarView} {i j k : Nat} {ts : List Step} {x : Item}
  {p : Position}

theorem position (h : Carries g i j ts x) :
    g.walk? (Trail.labels ts) = some x.position := by
  obtain ⟨p, hp, rfl⟩ := h
  exact hp

theorem follow (h : Carries g i j ts x) (s : Step) :
    g.walk? (Trail.labels (ts ++ [s])) = g.follow? x.position s.label := by
  rw [Trail.labels_concat, GrammarView.walk?_concat, h.position]
  rfl

theorem crossArc (h : Carries g i k ts x) {a : Arc} (n : Nat)
    (hp : g.follow? x.position a.label = some p) :
    Carries g i j (ts ++ [.arc n a]) (x.crossArc a p j) := by
  refine ⟨p, (h.follow (.arc n a)).trans hp, ?_⟩
  obtain ⟨q, -, rfl⟩ := h
  rw [Trail.antecedents_concat_arc, Trail.path_concat_arc]
  rfl

theorem crossConstituent (h : Carries g i k ts x) {lhs : Symbol} (id : Nat)
    (hp : g.follow? x.position lhs = some p) :
    Carries g i j (ts ++ [.constituent j lhs id])
      (x.crossConstituent id p j) := by
  refine ⟨p, (h.follow (.constituent j lhs id)).trans hp, ?_⟩
  obtain ⟨q, -, rfl⟩ := h
  rw [Trail.antecedents_concat_constituent, Trail.path_concat_constituent]
  rfl

end Carries

end LatticeParsing
