/-
What expanding and starting do to the cells of an item chart.

Items are only ever added, each to the end of the cell of its own span
(`Placed`). So the items that a step adds to a cell are those of its new
items that stand over the span of the cell, and the cell is described by an
equation:

- `itemsAt_expand_self`, `itemsAt_expand_later`: expanding `i` to `j` adds
  to the cell of the span what arises at the split points and what arcs of
  length one bring, and to the cells of later ends what longer arcs bring;
- `itemsAt_expand_of_not_reached`: it leaves other rows and the cells of
  earlier ends alone;
- `itemsAt_start_self`, `itemsAt_start_of_ne`: starting adds to one cell.

What the steps read is named by `overConstituents_congr` and
`overArcs_congr`.
-/
import LatticeParsing.Chart.ItemChart
import LatticeParsing.Proofs.Chart.Triangle
import Mathlib.Data.List.Basic

namespace LatticeParsing.ItemChart

variable {c c' : ItemChart} {a b i j k : Nat}

-- ============================================================== adding

/-- Those of a list of items that stand over a span. -/
def spanning (i j : Nat) (xs : List Item) : List Item :=
  xs.filter fun x => x.start == i && x.stop == j

theorem mem_spanning {x : Item} {xs : List Item} :
    x ∈ spanning i j xs ↔ x ∈ xs ∧ x.start = i ∧ x.stop = j := by
  simp [spanning]

theorem spanning_append (i j : Nat) (xs ys : List Item) :
    spanning i j (xs ++ ys) = spanning i j xs ++ spanning i j ys :=
  List.filter_append ..

/-- There are no items over a span that the table does not have. -/
theorem itemsAt_eq_nil (h : ¬ (i ≤ j ∧ j ≤ c.limit)) : c.itemsAt i j = [] := by
  unfold itemsAt
  rw [c.cells.get?_eq_none.2 h]
  rfl

@[simp]
theorem itemsAt_empty (n i j : Nat) : (empty n).itemsAt i j = [] := by
  unfold itemsAt empty
  rw [Triangle.get?_replicate]
  split <;> rfl

@[simp]
theorem limit_add (c : ItemChart) (x : Item) : (c.add x).limit = c.limit := by
  unfold add
  split
  · exact Triangle.max_modify ..
  · rfl

@[simp]
theorem limit_addAll (c : ItemChart) (xs : List Item) :
    (c.addAll xs).limit = c.limit := by
  unfold addAll
  induction xs generalizing c with
  | nil => rfl
  | cons x xs ih =>
      rw [List.foldl_cons, ih, limit_add]

/-- An item goes to the end of the cell of its span. -/
theorem itemsAt_add (x : Item) (hab : a ≤ b) (hb : b ≤ c.limit) :
    (c.add x).itemsAt a b = c.itemsAt a b ++ spanning a b [x] := by
  have hspan : c.cells.hasSpan a b = true :=
    (Triangle.hasSpan_iff _).2 ⟨hab, hb⟩
  obtain ⟨cell, hcell⟩ := c.cells.exists_get?_eq hab hb
  by_cases hx : x.start = a ∧ x.stop = b
  · obtain ⟨rfl, rfl⟩ := hx
    simp [add, itemsAt, hspan, Triangle.get?_modify, hcell, spanning]
  · have hne : ¬ (a = x.start ∧ b = x.stop) := fun h => hx ⟨h.1.symm, h.2.symm⟩
    have hspanning : spanning a b [x] = [] := by
      simpa [spanning] using hx
    rw [hspanning, List.append_nil]
    unfold add
    split
    · simp [itemsAt, Triangle.get?_modify, hne]
    · rfl

/-- Items go to the ends of the cells of their spans. -/
theorem itemsAt_addAll (xs : List Item) (hab : a ≤ b) (hb : b ≤ c.limit) :
    (c.addAll xs).itemsAt a b = c.itemsAt a b ++ spanning a b xs := by
  induction xs generalizing c with
  | nil => simp [addAll, spanning]
  | cons x xs ih =>
      have hstep : (c.addAll (x :: xs)) = (c.add x).addAll xs := rfl
      rw [hstep, ih (by rwa [limit_add]), itemsAt_add x hab hb,
        List.append_assoc, ← spanning_append]
      rfl

/-- What a cell comes to hold was there before or is new and stands over its
span. -/
theorem mem_itemsAt_addAll {xs : List Item} {x : Item}
    (hx : x ∈ (c.addAll xs).itemsAt i j) :
    x ∈ c.itemsAt i j ∨ x ∈ xs ∧ x.start = i ∧ x.stop = j := by
  by_cases hspan : i ≤ j ∧ j ≤ c.limit
  · rw [itemsAt_addAll xs hspan.1 hspan.2] at hx
    exact (List.mem_append.1 hx).imp_right mem_spanning.1
  · rw [itemsAt_eq_nil (by rwa [limit_addAll])] at hx
    cases hx

/-- A cell keeps its items if none of the new ones stands over its span. -/
theorem itemsAt_addAll_of_forall_ne {xs : List Item}
    (h : ∀ x ∈ xs, ¬ (x.start = a ∧ x.stop = b)) :
    (c.addAll xs).itemsAt a b = c.itemsAt a b := by
  by_cases hspan : a ≤ b ∧ b ≤ c.limit
  · have hspanning : spanning a b xs = [] := by
      rw [List.eq_nil_iff_forall_not_mem]
      intro x hx
      obtain ⟨hmem, hat⟩ := mem_spanning.1 hx
      exact h x hmem hat
    rw [itemsAt_addAll xs hspan.1 hspan.2, hspanning, List.append_nil]
  · rw [itemsAt_eq_nil hspan, itemsAt_eq_nil (by rwa [limit_addAll])]

/-- A cell gets all of the new items if they stand over its span. -/
theorem itemsAt_addAll_of_forall {xs : List Item}
    (h : ∀ x ∈ xs, x.start = i ∧ x.stop = j) (hij : i ≤ j)
    (hj : j ≤ c.limit) :
    (c.addAll xs).itemsAt i j = c.itemsAt i j ++ xs := by
  rw [itemsAt_addAll xs hij hj]
  congr 1
  exact List.filter_eq_self.2 fun x hx => by simp [h x hx]

/-- Items whose spans the table does not have are dropped. -/
theorem addAll_of_forall_outside {xs : List Item}
    (h : ∀ x ∈ xs, ¬ (x.start ≤ x.stop ∧ x.stop ≤ c.limit)) :
    c.addAll xs = c := by
  induction xs with
  | nil => rfl
  | cons x xs ih =>
      have hdrop : c.add x = c := by
        unfold ItemChart.add
        rw [if_neg fun hmem =>
          h x (List.mem_cons_self ..) ((Triangle.hasSpan_iff _).1 hmem)]
      have hstep : c.addAll (x :: xs) = (c.add x).addAll xs := rfl
      rw [hstep, hdrop]
      exact ih fun y hy => h y (List.mem_cons_of_mem _ hy)

-- =========================================================== placement

/-- Every item stands in the cell of its span. -/
def Placed (c : ItemChart) : Prop :=
  ∀ i j, ∀ x ∈ c.itemsAt i j, x.start = i ∧ x.stop = j

theorem placed_empty (n : Nat) : (empty n).Placed := by
  intro i j x hx
  rw [itemsAt_empty] at hx
  cases hx

theorem Placed.addAll (h : c.Placed) (xs : List Item) :
    (c.addAll xs).Placed := by
  intro i j x hx
  rcases mem_itemsAt_addAll hx with hx | ⟨-, hat⟩
  · exact h i j x hx
  · exact hat

-- =========================================================== new items

variable (g : GrammarView) {f f' : Forest} {l : Lattice}

/-- Crossing constituents reads one cell of items and one of
constituents. -/
theorem overConstituents_congr (e : Bool)
    (hc : c.itemsAt i k = c'.itemsAt i k) (hf : f.cellAt k j = f'.cellAt k j) :
    overConstituents g f e i k j c = overConstituents g f' e i k j c' := by
  unfold overConstituents
  rw [hc, hf]

/-- Crossing arcs reads one cell of items. -/
theorem overArcs_congr (hc : c.itemsAt i k = c'.itemsAt i k) :
    overArcs g l i k c = overArcs g l i k c' := by
  unfold overArcs
  rw [hc]

/-- The items that arise by crossing a constituent. -/
theorem mem_overConstituents {e : Bool} {y : Item} :
    y ∈ overConstituents g f e i k j c
      ↔ ∃ x ∈ c.itemsAt i k, ∃ lhs id p, (lhs, id) ∈ f.cellAt k j
          ∧ Symbol.containsSorted x.position.nonterminals lhs = true
          ∧ g.follow? x.position lhs = some p
          ∧ (e = true → p.hasExtensions = true)
          ∧ y = x.crossConstituent id p j := by
  simp only [overConstituents, List.mem_flatMap, List.mem_filterMap,
    Prod.exists]
  constructor
  · intro h
    obtain ⟨x, hx, lhs, id, hcell, hy⟩ := h
    split at hy
    case isFalse => cases hy
    case isTrue hnt =>
      obtain ⟨p, hp, hy⟩ := Option.bind_eq_some_iff.1 hy
      split at hy
      case isTrue => cases hy
      case isFalse hext =>
        refine ⟨x, hx, lhs, id, p, hcell, hnt, hp, ?_, ?_⟩
        · intro heq
          subst heq
          simpa using hext
        · injection hy with hy
          exact hy.symm
  · intro h
    obtain ⟨x, hx, lhs, id, p, hcell, hnt, hp, hext, rfl⟩ := h
    refine ⟨x, hx, lhs, id, hcell, ?_⟩
    rw [if_pos hnt, hp]
    cases e with
    | false => rfl
    | true => simp [hext rfl]

/-- The items that arise by crossing an arc. -/
theorem mem_overArcs {y : Item} :
    y ∈ overArcs g l i k c
      ↔ ∃ x ∈ c.itemsAt i k, ∃ a ∈ l.arcsFrom k, ∃ p,
          a.label.isNonterminal = false
          ∧ g.follow? x.position a.label = some p
          ∧ y = x.crossArc a p a.head := by
  simp only [overArcs, List.mem_flatMap, List.mem_filterMap, List.mem_filter,
    Option.map_eq_some_iff, Bool.not_eq_true']
  constructor
  · intro h
    obtain ⟨a, ⟨ha, hlabel⟩, x, hx, p, hp, rfl⟩ := h
    exact ⟨x, hx, a, ha, p, hlabel, hp, by rw [l.add_spanLength ha]⟩
  · intro h
    obtain ⟨x, hx, a, ha, p, hlabel, hp, rfl⟩ := h
    exact ⟨a, ⟨ha, hlabel⟩, x, hx, p, hp, by rw [l.add_spanLength ha]⟩

/-- Crossing constituents up to `j` leads from the start of the row to
`j`. -/
theorem Placed.overConstituents (h : c.Placed) {e : Bool} {y : Item}
    (hy : y ∈ overConstituents g f e i k j c) : y.start = i ∧ y.stop = j := by
  obtain ⟨x, hx, lhs, id, p, -, -, -, -, rfl⟩ := (mem_overConstituents g).1 hy
  exact ⟨(h i k x hx).1, rfl⟩

/-- Crossing an arc leads beyond its tail. -/
theorem Placed.overArcs (h : c.Placed) {y : Item}
    (hy : y ∈ overArcs g l i k c) : y.start = i ∧ k < y.stop := by
  obtain ⟨x, hx, a, ha, p, -, -, rfl⟩ := (mem_overArcs g).1 hy
  exact ⟨(h i k x hx).1, (l.fits_arcsFrom ha).2.1⟩

/-- Crossing arcs stays within the lattice. -/
theorem stop_lt_of_mem_overArcs {y : Item} (hy : y ∈ overArcs g l i k c) :
    y.stop < l.nodeCount := by
  obtain ⟨x, hx, a, ha, p, -, -, rfl⟩ := (mem_overArcs g).1 hy
  exact (l.fits_arcsFrom ha).2.2

/-- The items that arrive at `j` by crossing an arc that leaves node
`k`. -/
def landing (l : Lattice) (i k j : Nat) (c : ItemChart) : List Item :=
  spanning i j (overArcs g l i k c)

theorem landing_congr (hc : c.itemsAt i k = c'.itemsAt i k) :
    landing g l i k j c = landing g l i k j c' := by
  unfold landing
  rw [overArcs_congr g hc]

/-- No arc leads from a node to one that does not lie behind it. -/
theorem Placed.landing_eq_nil (h : c.Placed) (hjk : j ≤ k) :
    landing g l i k j c = [] := by
  rw [List.eq_nil_iff_forall_not_mem]
  intro y hy
  obtain ⟨hmem, -, hstop⟩ := mem_spanning.1 hy
  have hlt := (h.overArcs g hmem).2
  omega

-- ============================================================ starting

@[simp]
theorem limit_start (f : Forest) (i j : Nat) (c : ItemChart) :
    (start g f i j c).limit = c.limit :=
  limit_addAll ..

theorem Placed.start (h : c.Placed) (f : Forest) (i j : Nat) :
    (start g f i j c).Placed :=
  h.addAll _

/-- Starting adds items to the cell of the span. -/
theorem itemsAt_start_self (h : c.Placed) (hij : i ≤ j) (hj : j ≤ c.limit) :
    (start g f i j c).itemsAt i j
      = c.itemsAt i j ++ overConstituents g f true i i j c :=
  itemsAt_addAll_of_forall (fun _ hx => h.overConstituents g hx) hij hj

/-- Starting leaves all other cells alone. -/
theorem itemsAt_start_of_ne (h : c.Placed) (hne : ¬ (a = i ∧ b = j)) :
    (start g f i j c).itemsAt a b = c.itemsAt a b := by
  refine itemsAt_addAll_of_forall_ne fun x hx hat => ?_
  obtain ⟨hstart, hstop⟩ := h.overConstituents g hx
  exact hne ⟨by omega, by omega⟩

-- =========================================================== expanding

@[simp]
theorem limit_crossSplits (f : Forest) (i j : Nat) (c : ItemChart)
    (ks : List Nat) : (crossSplits g f i j c ks).limit = c.limit := by
  unfold crossSplits
  induction ks generalizing c with
  | nil => rfl
  | cons k ks ih => rw [List.foldl_cons, ih, limit_addAll]

theorem Placed.crossSplits (h : c.Placed) (f : Forest) (i j : Nat)
    (ks : List Nat) : (crossSplits g f i j c ks).Placed := by
  unfold ItemChart.crossSplits
  induction ks generalizing c with
  | nil => exact h
  | cons k ks ih => exact ih (h.addAll _)

/-- Crossing constituents at split points leaves all cells alone but that of
the span. -/
theorem itemsAt_crossSplits_of_ne (h : c.Placed) (ks : List Nat)
    (hne : ¬ (a = i ∧ b = j)) :
    (crossSplits g f i j c ks).itemsAt a b = c.itemsAt a b := by
  unfold crossSplits
  induction ks generalizing c with
  | nil => rfl
  | cons k ks ih =>
      rw [List.foldl_cons, ih (h.addAll _)]
      refine itemsAt_addAll_of_forall_ne fun x hx hat => ?_
      obtain ⟨hstart, hstop⟩ := h.overConstituents g hx
      exact hne ⟨by omega, by omega⟩

/-- Crossing constituents at split points before `j`: what one split adds
is not read at the next. -/
theorem itemsAt_crossSplits_self (h : c.Placed) {ks : List Nat}
    (hks : ∀ k ∈ ks, k < j) (hij : i ≤ j) (hj : j ≤ c.limit) :
    (crossSplits g f i j c ks).itemsAt i j
      = c.itemsAt i j
        ++ ks.flatMap fun k => overConstituents g f false i k j c := by
  unfold crossSplits
  induction ks generalizing c with
  | nil => simp
  | cons k ks ih =>
      -- what is added ends at `j`, and later splits read earlier ends
      have hread : ∀ m ∈ ks,
          (c.addAll (overConstituents g f false i k j c)).itemsAt i m
            = c.itemsAt i m := by
        intro m hm
        have hmj := hks m (List.mem_cons_of_mem _ hm)
        refine itemsAt_addAll_of_forall_ne fun x hx hat => ?_
        have hstop := (h.overConstituents g hx).2
        omega
      rw [List.foldl_cons,
        ih (h.addAll _) (fun m hm => hks m (List.mem_cons_of_mem _ hm))
          (by rwa [limit_addAll]),
        itemsAt_addAll_of_forall (fun _ hx => h.overConstituents g hx) hij hj,
        List.append_assoc, List.flatMap_cons]
      congr 2
      exact List.flatMap_congr fun m hm =>
        overConstituents_congr g false (hread m hm) rfl

@[simp]
theorem limit_expand (l : Lattice) (f : Forest) (i j : Nat) (c : ItemChart) :
    (expand g l f i j c).limit = c.limit := by
  unfold expand
  split
  · rfl
  · rw [limit_addAll, limit_crossSplits]

theorem Placed.expand (h : c.Placed) (l : Lattice) (f : Forest) (i j : Nat) :
    (expand g l f i j c).Placed := by
  unfold ItemChart.expand
  split
  · exact h
  · exact (h.crossSplits g f i j _).addAll _

/-- Expanding adds what arises at the split points and then what crosses an
arc; the latter reads a cell that the former leaves alone. -/
theorem itemsAt_expand (h : c.Placed) (hij : i < j) (hj : j ≤ c.limit)
    (hab : a ≤ b) (hb : b ≤ c.limit) :
    (expand g l f i j c).itemsAt a b
      = (crossSplits g f i j c (List.range' (i + 1) (j - (i + 1)))).itemsAt a b
        ++ spanning a b (overArcs g l i (j - 1) c) := by
  have hguard : ¬ (decide (j ≤ i) || decide (c.limit < j)) = true := by
    simp only [Bool.or_eq_true, decide_eq_true_eq]
    omega
  unfold expand
  rw [if_neg hguard]
  simp only
  rw [itemsAt_addAll _ hab (by rwa [limit_crossSplits]),
    overArcs_congr g (itemsAt_crossSplits_of_ne g h _ (by omega))]

/-- Expanding leaves cells of other rows alone, and those of the row with an
earlier end. -/
theorem itemsAt_expand_of_not_reached (h : c.Placed)
    (hne : ¬ (a = i ∧ j ≤ b)) :
    (expand g l f i j c).itemsAt a b = c.itemsAt a b := by
  unfold expand
  split
  case isTrue => rfl
  case isFalse hguard =>
    simp only [Bool.or_eq_true, decide_eq_true_eq] at hguard
    simp only
    rw [itemsAt_addAll_of_forall_ne, itemsAt_crossSplits_of_ne g h]
    · omega
    · intro x hx hat
      obtain ⟨hstart, hstop⟩ := (h.crossSplits g f i j _).overArcs g hx
      omega

/-- Expanding a span completes its cell up to the items that start with a
constituent over the whole span. -/
theorem itemsAt_expand_self (h : c.Placed) (hij : i < j) (hj : j ≤ c.limit) :
    (expand g l f i j c).itemsAt i j
      = c.itemsAt i j
        ++ (List.range' (i + 1) (j - (i + 1))).flatMap
            (fun k => overConstituents g f false i k j c)
        ++ landing g l i (j - 1) j c := by
  have hsplits : ∀ k ∈ List.range' (i + 1) (j - (i + 1)), k < j := by
    intro k hk
    have hk := List.mem_range'_1.1 hk
    omega
  rw [itemsAt_expand g h hij hj (Nat.le_of_lt hij) hj,
    itemsAt_crossSplits_self g h hsplits (Nat.le_of_lt hij) hj]
  rfl

/-- Expanding a span brings items to cells of later ends over longer
arcs. -/
theorem itemsAt_expand_later (h : c.Placed) (hij : i < j) (hj : j ≤ c.limit)
    (hl : l.nodeCount ≤ c.limit) (hjb : j < b) :
    (expand g l f i j c).itemsAt i b
      = c.itemsAt i b ++ landing g l i (j - 1) b c := by
  by_cases hb : b ≤ c.limit
  · rw [itemsAt_expand g h hij hj (by omega) hb,
      itemsAt_crossSplits_of_ne g h _ (by omega)]
    rfl
  · have hspan : ¬ (i ≤ b ∧ b ≤ c.limit) := fun hib => hb hib.2
    have hnone : landing g l i (j - 1) b c = [] := by
      rw [List.eq_nil_iff_forall_not_mem]
      intro y hy
      obtain ⟨hmem, -, hstop⟩ := mem_spanning.1 hy
      have hlt := stop_lt_of_mem_overArcs g hmem
      omega
    rw [itemsAt_eq_nil (by rwa [limit_expand]), itemsAt_eq_nil hspan, hnone]
    rfl

end LatticeParsing.ItemChart
