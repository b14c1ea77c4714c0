/-
Charts in tables with bounds.

The machine computes where the entry of a span stands in the table of a
chart. It would stop if a number on the way were too great, if more were taken
off the beginning of a row than there is, or if the entry stood outside of the
table.

None of these happens in a table over the spans up to `max` where the machine
can count to `(max + 1) * (max + 2)` (`Room`): every row begins and every
entry stands within the table, and what is taken off is part of what it is
taken from (`place?_eq`). That an item which is continued over an arc ends
where the arc leads rests on the arcs of the lattice, which lead forward and
within it.
-/
import LatticeParsing.Proofs.Chart.ItemCells
import LatticeParsing.Proofs.Machine.Distances

namespace LatticeParsing.Machine

variable {α : Type} {top max i j k : Nat}

-- ================================================================ places

/-- Whether the machine can count what it needs for a table over the spans up
to `max`. -/
def Room (top max : Nat) : Prop := (max + 1) * (max + 2) ≤ top

/-- Where the entry of a span stands; none if the span is outside of the
table. -/
def place? (top max i j : Nat) : Option (Option Nat) :=
  if j < i ∨ max < j then some none
  else do
    let width ← add? top max 1
    let rows ← mul? top i width
    let square ← mul? top i (i - 1)
    let row ← sub? rows (square / 2)
    let across ← sub? j i
    let place ← add? top row across
    return some place

/-- The table with the same entry for every span. -/
def allocate? (top max : Nat) (entry : α) : Option (Triangle α) := do
  let width ← add? top max 1
  let height ← add? top max 2
  let _ ← mul? top width height
  return .replicate max entry

/-- The entry of a span; none if the span is outside of the table. -/
def read? (top : Nat) (t : Triangle α) (i j : Nat) : Option (Option α) := do
  match ← place? top t.max i j with
  | none => return none
  | some place =>
    let entry ← t.entries[place]?
    return some entry

theorem size_modify (t : Triangle α) (place : Nat) (f : α → α) :
    (t.entries.modify place f).size = spanCount t.max :=
  Array.size_modify.trans t.size_eq

/-- Changes the entry of a span, if there is one. -/
def write? (top : Nat) (t : Triangle α) (i j : Nat) (f : α → α) :
    Option (Triangle α) := do
  match ← place? top t.max i j with
  | none => return t
  | some place =>
    if place < t.entries.size then
      return {
        t with
        entries := t.entries.modify place f
        size_eq := size_modify t place f }
    else none

theorem allocate?_eq (h : Room top max) (entry : α) :
    allocate? top max entry = some (.replicate max entry) := by
  have hmul : (max + 1) * (max + 2) ≤ top := h
  have hheight : max + 2 ≤ (max + 1) * (max + 2) :=
    Nat.le_mul_of_pos_left _ (Nat.succ_pos max)
  unfold allocate?
  rw [add?_eq (show max + 1 ≤ top by omega),
    add?_eq (show max + 2 ≤ top by omega)]
  simp only [Option.bind_eq_bind, Option.bind_some, mul?_eq hmul]
  rfl

/-- The machine finds the place of every span. -/
theorem place?_eq (h : Room top max) (i j : Nat) :
    place? top max i j = some (Triangle.index? max i j) := by
  unfold place? Triangle.index?
  by_cases hspan : j < i ∨ max < j
  · rw [if_pos hspan, if_pos (by simpa using hspan)]
  have hi : i ≤ max := by omega
  have hmul : (max + 1) * (max + 2) ≤ top := h
  have hwidth : max + 1 ≤ (max + 1) * (max + 2) :=
    Nat.le_mul_of_pos_right _ (Nat.succ_pos _)
  have hrows : i * (max + 1) ≤ (max + 1) * (max + 2) :=
    calc i * (max + 1) ≤ (max + 2) * (max + 1) :=
          Nat.mul_le_mul_right _ (by omega)
      _ = (max + 1) * (max + 2) := Nat.mul_comm ..
  have hsquare : i * (i - 1) ≤ i * (max + 1) :=
    Nat.mul_le_mul_left i (by omega)
  have hpart : i * (i - 1) / 2 ≤ i * (max + 1) :=
    Triangle.half_mul_pred_le (by omega)
  have hidx := Triangle.index?_lt (Triangle.index?_eq_some.2
    ⟨Nat.not_lt.1 fun hji => hspan (Or.inl hji),
      Nat.not_lt.1 fun hj => hspan (Or.inr hj), rfl⟩)
  have hcount : spanCount max ≤ (max + 1) * (max + 2) := Nat.div_le_self ..
  unfold Triangle.rowStart at hidx ⊢
  rw [if_neg hspan, if_neg (by simpa using hspan),
    add?_eq (show max + 1 ≤ top by omega)]
  simp only [Option.bind_eq_bind, Option.bind_some,
    mul?_eq (show i * (max + 1) ≤ top by omega),
    mul?_eq (show i * (i - 1) ≤ top by omega), sub?_eq hpart,
    sub?_eq (show i ≤ j by omega),
    add?_eq (show i * (max + 1) - i * (i - 1) / 2 + (j - i) ≤ top by omega)]
  rfl

/-- The machine reads what the table holds. -/
theorem read?_eq {t : Triangle α} (h : Room top t.max) (i j : Nat) :
    read? top t i j = some (t.get? i j) := by
  unfold read? Triangle.get?
  rw [place?_eq h]
  simp only [Option.bind_eq_bind, Option.bind_some]
  cases hidx : Triangle.index? t.max i j with
  | none => rfl
  | some place => simp [Triangle.place_lt_size hidx]

/-- The machine changes the entry of a span. -/
theorem write?_eq {t : Triangle α} (h : Room top t.max) (i j : Nat)
    (f : α → α) : write? top t i j f = some (t.modify i j f) := by
  unfold write? Triangle.modify
  rw [place?_eq h]
  simp only [Option.bind_eq_bind, Option.bind_some]
  cases hidx : Triangle.index? t.max i j with
  | none => rfl
  | some place => exact if_pos (Triangle.place_lt_size hidx)

-- ================================================================= items

/-- The items over a span. -/
def itemsAt? (top : Nat) (c : ItemChart) (i j : Nat) : Option (List Item) := do
  let cell ← read? top c.cells i j
  return (cell.getD #[]).toList

/-- Adds an item to the cell of its span, if there is one. -/
def addItem? (top : Nat) (c : ItemChart) (x : Item) : Option ItemChart := do
  match ← read? top c.cells x.start x.stop with
  | none => return c
  | some _ =>
    let cells ← write? top c.cells x.start x.stop (·.push x)
    return ⟨cells, c.itemCount + 1⟩

/-- Adds items in order. -/
def addItems? (top : Nat) (c : ItemChart) (xs : List Item) :
    Option ItemChart := xs.foldlM (addItem? top) c

variable {c : ItemChart} {f : Forest} {s : StoredLattice} {l : Lattice}

theorem itemsAt?_eq (h : Room top c.limit) (i j : Nat) :
    itemsAt? top c i j = some (c.itemsAt i j) := by
  unfold itemsAt? ItemChart.itemsAt
  rw [read?_eq h]
  rfl

theorem addItem?_eq (h : Room top c.limit) (x : Item) :
    addItem? top c x = some (c.add x) := by
  unfold addItem? ItemChart.add
  rw [read?_eq h, write?_eq h, ← Triangle.isSome_get?]
  cases c.cells.get? x.start x.stop <;> rfl

theorem addItems?_eq (h : Room top c.limit) (xs : List Item) :
    addItems? top c xs = some (c.addAll xs) := by
  unfold addItems? ItemChart.addAll
  induction xs generalizing c with
  | nil => rfl
  | cons x xs ih =>
      rw [List.foldlM_cons, List.foldl_cons, addItem?_eq h]
      exact ih (by rwa [ItemChart.limit_add])

-- =========================================================== extension

variable (g : GrammarView)

/-- The items that arise from several items by crossing a constituent of a
cell. With `extensible`, those at which nothing can follow are left out. -/
def crossings (extensible : Bool) (j : Nat) (cell : Cell)
    (items : List Item) : List Item :=
  items.flatMap fun x =>
    let crossable := x.position.nonterminals
    cell.filterMap fun (lhs, id) =>
      if Symbol.containsSorted crossable lhs then
        (g.follow? x.position lhs).bind fun p =>
          if extensible && !p.hasExtensions then none
          else some (x.crossConstituent id p j)
      else none

/-- Adds the items that arise from those over `i` to `k` by crossing a
constituent over `k` to `j`. The cell of the constituents is read only if there
are such items. -/
def crossConstituents? (top : Nat) (f : Forest) (extensible : Bool)
    (i k j : Nat) (c : ItemChart) : Option ItemChart := do
  let items ← itemsAt? top c i k
  if items.isEmpty then return c
  else
    let cell ← read? top f.cells k j
    addItems? top c (crossings g extensible j (cell.getD []) items)

/-- The item that arises from an item at node `k` by crossing an arc. -/
def crossArc? (top k : Nat) (a : Arc) (x : Item) : Option (List Item) :=
  match g.follow? x.position a.label with
  | none => some []
  | some p => do
    let span ← sub? a.head a.tail
    let stop ← add? top k span
    return [x.crossArc a p stop]

/-- Adds the items that arise from those over `i` to `k` by crossing an arc
that leaves node `k`. -/
def crossArcs? (top : Nat) (s : StoredLattice) (i k : Nat) (c : ItemChart) :
    Option ItemChart :=
  match s.nodes[k]? with
  | none => some c
  | some arcs => do
    let items ← itemsAt? top c i k
    if items.isEmpty then return c
    else
      let words := arcs.filter (!·.label.isNonterminal)
      let crossed ← collect?
        (fun a => collect? (crossArc? g top k a) items) words
      addItems? top c crossed

/-- Expands a chart over a span. -/
def expand? (top : Nat) (s : StoredLattice) (f : Forest) (i j : Nat)
    (c : ItemChart) : Option ItemChart :=
  if j ≤ i ∨ c.limit < j then some c
  else do
    let first ← add? top i 1
    let c ← (List.range' first (j - first)).foldlM
      (fun c k => crossConstituents? g top f false i k j c) c
    let before ← sub? j 1
    crossArcs? g top s i before c

/-- Starts rules from the constituents over a span. -/
def start? (top : Nat) (f : Forest) (i j : Nat) (c : ItemChart) :
    Option ItemChart := crossConstituents? g top f true i i j c

theorem crossConstituents?_eq (hc : Room top c.limit)
    (hf : Room top f.cells.max) (extensible : Bool) (i k j : Nat) :
    crossConstituents? g top f extensible i k j c
      = some (c.addAll
          (ItemChart.overConstituents g f extensible i k j c)) := by
  unfold crossConstituents?
  rw [itemsAt?_eq hc, read?_eq hf]
  simp only [Option.bind_eq_bind, Option.bind_some]
  split
  case isTrue hempty =>
    rw [List.isEmpty_iff] at hempty
    unfold ItemChart.overConstituents
    rw [hempty]
    rfl
  case isFalse => exact addItems?_eq hc _

/-- Crossing an arc that leaves a node leads on along the arc. -/
theorem crossArc?_eq {a : Arc} (ha : a ∈ l.arcsFrom k)
    (htop : l.nodeCount ≤ top) (x : Item) :
    crossArc? g top k a x = some ((g.follow? x.position a.label).map fun p =>
      x.crossArc a p (k + a.spanLength)).toList := by
  obtain ⟨htail, hforward, hhead⟩ := l.fits_arcsFrom ha
  have hstop := l.add_spanLength ha
  unfold crossArc?
  unfold Arc.spanLength at hstop ⊢
  cases g.follow? x.position a.label with
  | none => rfl
  | some p =>
      rw [sub?_eq (show a.tail ≤ a.head by omega)]
      simp only [Option.bind_eq_bind, Option.bind_some,
        add?_eq (show k + (a.head - a.tail) ≤ top by omega)]
      rfl

theorem crossArcs?_eq (hs : Stores s l) (hc : Room top c.limit)
    (htop : l.nodeCount ≤ top) (i k : Nat) :
    crossArcs? g top s i k c
      = some (c.addAll (ItemChart.overArcs g l i k c)) := by
  unfold crossArcs? ItemChart.overArcs
  rw [hs.nodes]
  cases hnode : l.outgoing[k]? with
  | none =>
      have harcs : l.arcsFrom k = [] := by
        unfold Lattice.arcsFrom
        rw [hnode]
        rfl
      rw [harcs]
      rfl
  | some arcs =>
      have harcs : l.arcsFrom k = arcs := by
        unfold Lattice.arcsFrom
        rw [hnode]
        rfl
      have hcross : ∀ a ∈ arcs.filter (!·.label.isNonterminal),
          collect? (crossArc? g top k a) (c.itemsAt i k)
            = some ((c.itemsAt i k).filterMap fun x =>
                (g.follow? x.position a.label).map fun p =>
                  x.crossArc a p (k + a.spanLength)) := by
        intro a ha
        rw [List.filterMap_eq_flatMap_toList]
        refine collect?_eq fun x _ => crossArc?_eq g ?_ htop x
        rw [harcs]
        exact List.mem_of_mem_filter ha
      simp only [itemsAt?_eq hc, Option.bind_eq_bind, Option.bind_some,
        collect?_eq hcross, harcs]
      split
      case isTrue hempty =>
        rw [List.isEmpty_iff] at hempty
        simp only [hempty, List.filterMap_nil,
          List.flatMap_eq_nil_iff.2 fun _ _ => rfl]
        rfl
      case isFalse => exact addItems?_eq hc _

/-- Crossing constituents at several split points. -/
theorem crossSplits?_eq (hc : Room top c.limit) (hf : Room top f.cells.max)
    (i j : Nat) (splits : List Nat) :
    splits.foldlM (fun c k => crossConstituents? g top f false i k j c) c
      = some (ItemChart.crossSplits g f i j c splits) := by
  unfold ItemChart.crossSplits
  induction splits generalizing c with
  | nil => rfl
  | cons k splits ih =>
      rw [List.foldlM_cons, List.foldl_cons, crossConstituents?_eq g hc hf]
      exact ih (by rwa [ItemChart.limit_addAll])

/-- The machine expands a chart. -/
theorem expand?_eq (hs : Stores s l) (hc : Room top c.limit)
    (hf : Room top f.cells.max) (hlimit : c.limit = l.nodeCount) (i j : Nat) :
    expand? g top s f i j c = some (c.expand g l f i j) := by
  have hmul : (c.limit + 1) * (c.limit + 2) ≤ top := hc
  have hcount : c.limit + 1 ≤ (c.limit + 1) * (c.limit + 2) :=
    Nat.le_mul_of_pos_right _ (Nat.succ_pos _)
  unfold expand? ItemChart.expand
  by_cases hspan : j ≤ i ∨ c.limit < j
  · rw [if_pos hspan, if_pos (by simpa using hspan)]
  rw [if_neg hspan, if_neg (by simpa using hspan),
    add?_eq (show i + 1 ≤ top by omega), sub?_eq (show 1 ≤ j by omega)]
  simp only [Option.bind_eq_bind, Option.bind_some, crossSplits?_eq g hc hf]
  exact crossArcs?_eq g hs (by rwa [ItemChart.limit_crossSplits])
    (by omega) i (j - 1)

theorem start?_eq (hc : Room top c.limit) (hf : Room top f.cells.max)
    (i j : Nat) : start? g top f i j c = some (c.start g f i j) :=
  crossConstituents?_eq g hc hf true i i j

-- =============================================================== seeding

/-- The items at the root, for the nodes of a list. -/
def seeds? (top : Nat) (s : StoredLattice) :
    List Nat → Option (Except ChartError (List Item))
  | [] => some (.ok [])
  | j :: js => do
    match ← s.distance? top j j with
    | none => seeds? top s js
    | some d =>
      if g.allows j j d then
        match g.root? with
        | none => return .error (.missingRoot j)
        | some root =>
          let rest ← seeds? top s js
          return rest.map
            ({ start := j, stop := j, position := root } :: ·)
      else seeds? top s js

/-- The chart with an item of the root at every node that the grammar
allows. -/
def seeded? (top : Nat) (s : StoredLattice) :
    Option (Except ChartError ItemChart) := do
  let cells ← allocate? top s.nodes.size #[]
  match ← seeds? g top s (List.range s.nodes.size) with
  | .error e => return .error e
  | .ok items => return .ok (← addItems? top ⟨cells, 0⟩ items)

theorem seeds?_eq (hs : Stores s l) (htop : l.nodeCount * l.nodeCount ≤ top)
    (js : List Nat) : seeds? g top s js = some (ItemChart.seeds l g js) := by
  induction js with
  | nil => rfl
  | cons j js ih =>
      unfold seeds? ItemChart.seeds
      rw [distance?_eq hs htop, ih]
      simp only [Option.bind_eq_bind, Option.bind_some]
      cases l.distance j j with
      | none => rfl
      | some d =>
          dsimp only
          by_cases hallow : g.allows j j d = true
          · rw [if_pos hallow, if_pos hallow]
            cases g.root? with
            | none => rfl
            | some root => cases ItemChart.seeds l g js <;> rfl
          · rw [if_neg hallow, if_neg hallow]

/-- The machine seeds a chart. -/
theorem seeded?_eq (hs : Stores s l) (htop : l.nodeCount * l.nodeCount ≤ top)
    (hroom : Room top l.nodeCount) :
    seeded? g top s = some (ItemChart.seeded l g) := by
  have hcount : s.nodes.size = l.nodeCount := by rw [hs.nodes]; rfl
  unfold seeded? ItemChart.seeded
  rw [hcount, allocate?_eq hroom, seeds?_eq g hs htop]
  simp only [Option.bind_eq_bind, Option.bind_some]
  cases ItemChart.seeds l g (List.range l.nodeCount) with
  | error e => rfl
  | ok items =>
      have hadd := addItems?_eq (c := ItemChart.empty l.nodeCount) hroom items
      unfold ItemChart.empty at hadd
      simp only [hadd]
      rfl

end LatticeParsing.Machine
