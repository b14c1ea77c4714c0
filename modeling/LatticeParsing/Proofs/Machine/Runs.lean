/-
No input stops the machine.

The machine stores a lattice, seeds its charts and takes all spans. Where it
can count the pairs of nodes of a lattice and the entries of a table over its
spans, no sum, product or difference leaves its numbers, no entry is looked
for outside of a table, and no text is cut within a character: whatever the
input and the grammars, it comes to the result that the parse is defined to
have (`machine_never_stops`).

The invariant of a run: the machine has the charts and the forest of the parse
in tables for as many spans as the lattice has (`Runs`). What counts things
that are kept in memory, such as the items of a chart, is not checked: memory
ends before the numbers do.
-/
import LatticeParsing.Proofs.Machine.Inputs
import LatticeParsing.Proofs.Machine.Ledgers
import LatticeParsing.Proofs.Parse.Charting

namespace LatticeParsing.Machine

open LatticeParsing.Parse

-- ============================================================= completion

/-- The grammars that allow rules over a span. -/
def allowing? (top : Nat) (s : StoredLattice) (charts : List ChartedGrammar)
    (i j : Nat) : Option (List ChartedGrammar) := do
  match ← s.distance? top i j with
  | none => return []
  | some d => return charts.filter fun c => c.grammar.allows i j d

/-- The rules that end at items. -/
def endings (items : List Item) : List Completion :=
  items.flatMap fun x =>
    x.position.rules.map fun r => ⟨r, x.antecedents, x.path.cost⟩

/-- The rules of a grammar whose source side is just a constituent. -/
def unaryEndings (lhs : Symbol) (id : Nat) (c : ChartedGrammar) :
    List Completion :=
  match c.grammar.root?.bind fun root => c.grammar.follow? root lhs with
  | none => []
  | some p => (p.rules.filter (·.rule.isUnary)).map fun r => ⟨r, [id], .zero⟩

/-- The rules that end at the items over a span. -/
def completions? (top : Nat) (s : StoredLattice)
    (charts : List ChartedGrammar) (i j : Nat) : Option (List Completion) := do
  let allowed ← allowing? top s charts i j
  collect? (fun c => (itemsAt? top c.chart i j).map endings) allowed

/-- The rules whose source side is just a constituent over a span. -/
def unaryCompletions? (top : Nat) (s : StoredLattice)
    (charts : List ChartedGrammar) (i j : Nat) (lhs : Symbol) (id : Nat) :
    Option (List Completion) := do
  let allowed ← allowing? top s charts i j
  return allowed.flatMap (unaryEndings lhs id)

-- ============================================================== recording

/-- A ledger and the constituents that have been made. -/
structure Recording where
  ledger : Ledger
  made : List Nat

/-- Records a completion over a span. -/
def Recording.add? (top i j : Nat) (r : Recording) (d : Completion) :
    Option Recording := do
  match ← ensure? top r.ledger i j d.rule.rule.lhs with
  | none => return r
  | some (ledger, id, isMade) =>
    let (ledger, _) ← ledger.record? id d
    return ⟨ledger, if isMade then r.made ++ [id] else r.made⟩

/-- Records completions over a span in order. -/
def recordAll? (top i j : Nat) (r : Ledger) (ds : List Completion) :
    Option Recording := ds.foldlM (Recording.add? top i j) ⟨r, []⟩

/-- Applies rules with a single nonterminal to the constituents of a queue and
to those that arise. -/
def closeFrom? (top : Nat) (s : StoredLattice) (charts : List ChartedGrammar)
    (i j : Nat) : Nat → List Nat → Ledger → Option Ledger
  | 0, _, r => some r
  | _ + 1, [], r => some r
  | fuel + 1, id :: queue, r =>
    match r.forest.constituents[id]? with
    | none => closeFrom? top s charts i j fuel queue r
    | some c => do
      let ds ← unaryCompletions? top s charts i j c.lhs id
      let step ← recordAll? top i j r ds
      closeFrom? top s charts i j fuel (queue ++ step.made) step.ledger

/-- Applies rules with a single nonterminal to the constituents `made` over a
span and to those that arise. -/
def closeUnary? (top : Nat) (s : StoredLattice) (charts : List ChartedGrammar)
    (i j : Nat) (r : Ledger) (made : List Nat) : Option Ledger :=
  closeFrom? top s charts i j (made.length + ruleBound charts + 1) made r

-- ================================================================== spans

/-- The charts of all grammars and the ledger that they share. -/
structure State where
  charts : List ChartedGrammar
  ledger : Ledger

/-- Changes every item chart. -/
def changeCharts? (change : GrammarView → ItemChart → Option ItemChart)
    (charts : List ChartedGrammar) : Option (List ChartedGrammar) :=
  collect? (fun c => do
    let chart ← change c.grammar c.chart
    return [{ c with chart }]) charts

/-- Takes a span. -/
def takeSpan? (top : Nat) (s : StoredLattice) (i j : Nat) (x : State) :
    Option State := do
  let expanded ← changeCharts?
    (fun g c => expand? g top s x.ledger.forest i j c) x.charts
  let ds ← completions? top s expanded i j
  let completed ← recordAll? top i j x.ledger ds
  let closed ← closeUnary? top s expanded i j completed.ledger completed.made
  let started ← changeCharts?
    (fun g c => start? g top closed.forest i j c) expanded
  return ⟨started, closed⟩

/-- Takes the spans of one width by ascending start. -/
def takeWidth? (top : Nat) (s : StoredLattice) (x : State) (width : Nat) :
    Option State := do
  let last ← sub? (s.nodes.size - 1) width
  (List.range (last + 1)).foldlM (fun x i => do
    let j ← add? top i width
    takeSpan? top s i j x) x

-- =================================================================== runs

/-- The seeded charts of several grammars. -/
def seedAll? (top : Nat) (s : StoredLattice) :
    List GrammarView → Option (Except ChartError (List ChartedGrammar))
  | [] => some (.ok [])
  | g :: gs => do
    match ← seeded? g top s with
    | .error e => return .error e
    | .ok chart =>
      let rest ← seedAll? top s gs
      return rest.map (⟨g, chart⟩ :: ·)

/-- The constituent with left-hand side `goal` over the whole input. -/
def goal? (top n : Nat) (goal : Symbol) (f : Forest) : Option (Option Nat) :=
  if n = 0 then some none
  else do
    let cell ← read? top f.cells 0 n
    return (cell.getD []).find? goal

/-- Parses a lattice that has been stored: the charts and the forest, and the
goal. -/
def parse? (top : Nat) (s : StoredLattice) (grammars : List GrammarView)
    (goal : Symbol) : Option (Except ChartError (Parse × Option Nat)) := do
  match ← seedAll? top s grammars with
  | .error e => return .error e
  | .ok charts =>
    let ledger ← emptyLedger? top s.nodes.size
    let n := s.nodes.size - 1
    let x ← (List.range' 1 n).foldlM (takeWidth? top s) ⟨charts, ledger⟩
    let found ← goal? top n goal x.ledger.forest
    return .ok (⟨x.charts, x.ledger.forest⟩, found)

-- ============================================================== recording

variable {top n i j : Nat} {s : StoredLattice} {l : Lattice}
  {charts : List ChartedGrammar} {r : Ledger} {f : Forest}

theorem allowing?_eq (hs : Stores s l) (htop : l.nodeCount * l.nodeCount ≤ top)
    (charts : List ChartedGrammar) (i j : Nat) :
    allowing? top s charts i j = some (allowing l charts i j) := by
  unfold allowing? allowing
  rw [distance?_eq hs htop]
  cases l.distance i j <;> rfl

theorem completions?_eq (hs : Stores s l)
    (htop : l.nodeCount * l.nodeCount ≤ top)
    (hcharts : ∀ c ∈ charts, Room top c.chart.limit) (i j : Nat) :
    completions? top s charts i j = some (completions l charts i j) := by
  unfold completions?
  rw [allowing?_eq hs htop]
  refine collect?_eq fun c hc => ?_
  have hmem : c ∈ charts := by
    unfold allowing at hc
    split at hc
    · cases hc
    · exact List.mem_of_mem_filter hc
  rw [itemsAt?_eq (hcharts c hmem)]
  rfl

theorem unaryCompletions?_eq (hs : Stores s l)
    (htop : l.nodeCount * l.nodeCount ≤ top) (charts : List ChartedGrammar)
    (i j : Nat) (lhs : Symbol) (id : Nat) :
    unaryCompletions? top s charts i j lhs id
      = some (unaryCompletions l charts i j lhs id) := by
  unfold unaryCompletions?
  rw [allowing?_eq hs htop]
  rfl

/-- Recording a completion. -/
theorem add?_returns (hroom : Room top n) {x : Recording} {m : Recorded}
    (hmade : x.made = m.made) (h : Follows n x.ledger m.forest)
    (d : Completion) : Returns (x.add? top i j d) fun x' =>
      x'.made = (m.add i j d).made
        ∧ Follows n x'.ledger (m.add i j d).forest := by
  unfold Recording.add? Recorded.add
  cases hens : m.forest.ensure? i j d.rule.rule.lhs with
  | none =>
      rw [h.ensure?_none hroom hens]
      exact ⟨x, rfl, hmade, h⟩
  | some made =>
      obtain ⟨f, id, isMade⟩ := made
      obtain ⟨r, hr, hf⟩ := h.ensure?_some hroom hens
      obtain ⟨⟨r', isNew⟩, hr', -, hf'⟩ := hf.record? id d
      refine ⟨⟨r', if isMade then x.made ++ [id] else x.made⟩, ?_, ?_, hf'⟩
      · rw [hr]
        dsimp only [Option.bind_eq_bind, Option.bind_some]
        rw [hr']
        rfl
      · rw [hmade]

theorem recordAll?_returns (hroom : Room top n) (h : Follows n r f)
    (ds : List Completion) : Returns (recordAll? top i j r ds) fun x =>
      x.made = (recordAll i j f ds).made
        ∧ Follows n x.ledger (recordAll i j f ds).forest := by
  have hround : ∀ (x : Recording) (m : Recorded), ∀ d ∈ ds,
      x.made = m.made ∧ Follows n x.ledger m.forest →
      Returns (x.add? top i j d) fun x' =>
        x'.made = (m.add i j d).made
          ∧ Follows n x'.ledger (m.add i j d).forest :=
    fun x m d _ hx => add?_returns hroom hx.1 hx.2 d
  exact returns_foldlM hround ⟨rfl, h⟩

theorem closeFrom?_returns (hs : Stores s l)
    (htop : l.nodeCount * l.nodeCount ≤ top) (hroom : Room top n)
    (charts : List ChartedGrammar) (fuel : Nat) (queue : List Nat)
    {m : Recorded} (h : Follows n r m.forest) :
    Returns (closeFrom? top s charts i j fuel queue r)
      (Follows n · (closeFrom l charts i j fuel queue m).forest) := by
  induction fuel generalizing queue r m with
  | zero => exact ⟨r, rfl, h⟩
  | succ fuel ih =>
      cases queue with
      | nil => exact ⟨r, rfl, h⟩
      | cons id queue =>
          unfold closeFrom? closeFrom
          rw [h.forest_eq]
          cases m.forest.constituents[id]? with
          | none => exact ih queue h
          | some c =>
              dsimp only
              rw [unaryCompletions?_eq hs htop]
              refine (recordAll?_returns hroom h _).bind fun step hstep => ?_
              rw [hstep.1]
              exact ih _ hstep.2

/-- The machine closes a span under rules with a single nonterminal. -/
theorem closeUnary?_returns (hs : Stores s l)
    (htop : l.nodeCount * l.nodeCount ≤ top) (hroom : Room top n)
    (charts : List ChartedGrammar) (made : List Nat) (h : Follows n r f) :
    Returns (closeUnary? top s charts i j r made)
      (Follows n · (closeUnary l charts i j f made).forest) :=
  closeFrom?_returns (m := ⟨f, [], 0⟩) hs htop hroom charts _ made h

-- ================================================================== spans

/-- Changing every chart. -/
theorem changeCharts?_eq {change? : GrammarView → ItemChart → Option ItemChart}
    (change : GrammarView → ItemChart → ItemChart)
    (h : ∀ c ∈ charts, change? c.grammar c.chart
      = some (change c.grammar c.chart)) :
    changeCharts? change? charts = some (mapCharts change charts) := by
  unfold changeCharts? mapCharts
  rw [List.map_eq_flatMap]
  refine collect?_eq fun c hc => ?_
  rw [h c hc]
  rfl

/-- Whether the machine is in a state of a parse of a lattice. -/
structure Runs (l : Lattice) (x : State) (p : Parse) : Prop where
  charts_eq : x.charts = p.charts
  ledger : Follows l.nodeCount x.ledger p.forest
  limit : ∀ c ∈ p.charts, c.chart.limit = l.nodeCount

/-- Charts keep their limit when they are changed. -/
theorem limit_mapCharts {change : GrammarView → ItemChart → ItemChart}
    (hchange : ∀ g c, (change g c).limit = c.limit)
    (h : ∀ c ∈ charts, c.chart.limit = n) :
    ∀ c ∈ mapCharts change charts, c.chart.limit = n := by
  intro c hc
  obtain ⟨c', hc', rfl⟩ := List.mem_map.1 hc
  exact (hchange ..).trans (h c' hc')

/-- The machine takes a span. -/
theorem takeSpan?_returns (hs : Stores s l)
    (htop : l.nodeCount * l.nodeCount ≤ top) (hroom : Room top l.nodeCount)
    {x : State} {p : Parse} (h : Runs l x p) (i j : Nat) (counts : PassCounts) :
    Returns (takeSpan? top s i j x)
      (Runs l · (takeSpan l i j p counts).1) := by
  obtain ⟨hcharts, hledger, hlimit⟩ := h
  have hrooms : ∀ {cs : List ChartedGrammar},
      (∀ c ∈ cs, c.chart.limit = l.nodeCount) →
      ∀ c ∈ cs, Room top c.chart.limit := fun h c hc => (h c hc).symm ▸ hroom
  have hexpand : changeCharts?
      (fun g c => expand? g top s x.ledger.forest i j c) x.charts
        = some (mapCharts (fun g c => c.expand g l p.forest i j) p.charts) := by
    rw [hcharts, hledger.forest_eq]
    refine changeCharts?_eq _ fun c hc => ?_
    exact expand?_eq c.grammar hs (hrooms hlimit c hc)
      (hledger.max_eq.symm ▸ hroom) (hlimit c hc) i j
  have hlimit' := limit_mapCharts
    (fun g c => ItemChart.limit_expand g l p.forest i j c) hlimit
  unfold takeSpan? takeSpan
  rw [hexpand]
  dsimp only [Option.bind_eq_bind, Option.bind_some]
  generalize mapCharts (fun g c => c.expand g l p.forest i j) p.charts
    = expanded at hlimit'
  rw [completions?_eq hs htop (hrooms hlimit')]
  refine (recordAll?_returns hroom hledger _).bind fun completed hdone => ?_
  obtain ⟨hmade, hforest⟩ := hdone
  rw [hmade]
  refine (closeUnary?_returns hs htop hroom expanded _ hforest).bind
    fun closed hclosed => ?_
  have hroom' : Room top closed.forest.cells.max := by
    rw [hclosed.forest_eq, hclosed.max_eq]
    exact hroom
  rw [changeCharts?_eq (fun g c => c.start g closed.forest i j)
    fun c hc => start?_eq c.grammar (hrooms hlimit' c hc) hroom' i j]
  refine ⟨_, rfl, ?_, hclosed, limit_mapCharts
    (fun g c => ItemChart.limit_start g _ i j c) hlimit'⟩
  rw [hclosed.forest_eq]

/-- The machine takes the spans of a width. -/
theorem takeWidth?_returns (hs : Stores s l)
    (htop : l.nodeCount * l.nodeCount ≤ top) (hroom : Room top l.nodeCount)
    {x : State} {p : Parse} (h : Runs l x p) {width : Nat}
    (hwidth : width ≤ l.sourceLength) :
    Returns (takeWidth? top s x width) (Runs l · (takeWidth l width p).1) := by
  have hcount : s.nodes.size = l.nodeCount := by rw [hs.nodes]; rfl
  have hsource : s.nodes.size - 1 = l.sourceLength := by rw [hcount]; rfl
  have hlast : l.sourceLength - width + 1 = l.sourceLength + 1 - width := by
    omega
  have hnodes : l.nodeCount ≤ top := Nat.le_trans (Nat.le_mul_self _) htop
  have hround : ∀ (x : State) (p : Parse × PassCounts),
      ∀ i ∈ List.range (l.sourceLength + 1 - width), Runs l x p.1 →
      Returns (do
        let j ← add? top i width
        takeSpan? top s i j x)
        (Runs l · (takeSpan l i (i + width) p.1 p.2).1) := by
    intro x p i hi hx
    have hi := List.mem_range.1 hi
    have hlength := l.nodeCount_eq
    rw [add?_eq (show i + width ≤ top by omega)]
    exact takeSpan?_returns hs htop hroom hx i (i + width) p.2
  unfold takeWidth? takeWidth
  rw [hsource, sub?_eq hwidth]
  simp only [Option.bind_eq_bind, Option.bind_some, hlast]
  exact returns_foldlM (R := fun x (p : Parse × PassCounts) => Runs l x p.1)
    hround h

-- =================================================================== runs

/-- The machine takes the spans of all widths. -/
theorem takeWidths?_returns (hs : Stores s l)
    (htop : l.nodeCount * l.nodeCount ≤ top) (hroom : Room top l.nodeCount)
    {x : State} {p : Parse} (h : Runs l x p) {ws : List Nat}
    (hws : ∀ w ∈ ws, w ≤ l.sourceLength) :
    Returns (ws.foldlM (takeWidth? top s) x)
      (Runs l · (takeWidths l ws p).1) := by
  induction ws generalizing x p with
  | nil => exact ⟨x, rfl, h⟩
  | cons w ws ih =>
      rw [List.forall_mem_cons] at hws
      rw [List.foldlM_cons]
      exact (takeWidth?_returns hs htop hroom h hws.1).bind
        fun x' hx' => ih hx' hws.2

/-- The machine seeds the charts. -/
theorem seedAll?_eq (hs : Stores s l) (htop : l.nodeCount * l.nodeCount ≤ top)
    (hroom : Room top l.nodeCount) (gs : List GrammarView) :
    seedAll? top s gs = some (seedAll l gs) := by
  induction gs with
  | nil => rfl
  | cons g gs ih =>
      unfold seedAll? seedAll
      rw [seeded?_eq g hs htop hroom, ih]
      cases ItemChart.seeded l g with
      | error e => rfl
      | ok chart => cases seedAll l gs <;> rfl

/-- Seeded charts have room for the spans of the lattice. -/
theorem limit_seedAll {gs : List GrammarView} (h : seedAll l gs = .ok charts) :
    ∀ c ∈ charts, c.chart.limit = l.nodeCount := by
  intro c hc
  rw [Charting.seedAll_eq h] at hc
  obtain ⟨g, -, rfl⟩ := List.mem_map.1 hc
  exact (Charting.fit_seeded l).limit g

theorem goal?_eq {p : Parse} (hroom : Room top p.forest.cells.max)
    (goal : Symbol) :
    goal? top l.sourceLength goal p.forest = some (p.goal? l goal) := by
  unfold goal? Parse.goal? Forest.find? Forest.cellAt
  split
  case isTrue => rfl
  case isFalse =>
    rw [read?_eq hroom]
    rfl

/-- The machine comes to the result of a parse. -/
theorem parse?_eq (hs : Stores s l) (htop : l.nodeCount * l.nodeCount ≤ top)
    (hroom : Room top l.nodeCount) (gs : List GrammarView) (goal : Symbol) :
    parse? top s gs goal
      = some ((l.parse gs goal).map fun r => (r.parse, r.goal)) := by
  have hcount : s.nodes.size = l.nodeCount := by rw [hs.nodes]; rfl
  unfold parse? Lattice.parse Parse.begin
  rw [seedAll?_eq hs htop hroom, hcount]
  cases hseed : seedAll l gs with
  | error e => rfl
  | ok charts =>
      obtain ⟨ledger, hempty, hledger⟩ := Follows.empty hroom
      have hstart : Runs l ⟨charts, ledger⟩ ⟨charts, .empty l.nodeCount⟩ :=
        ⟨rfl, hledger, limit_seedAll hseed⟩
      have hwidths : ∀ w ∈ widths l, w ≤ l.sourceLength := fun w hw => by
        have hw := List.mem_range'_1.1 hw
        omega
      obtain ⟨x, hx, hcharts, hforest, -⟩ :=
        takeWidths?_returns hs htop hroom hstart hwidths
      have hgoal := goal?_eq (l := l) (hforest.max_eq.symm ▸ hroom) goal
      have hrun : (List.range' 1 (l.nodeCount - 1)).foldlM (takeWidth? top s)
          ⟨charts, ledger⟩ = some x := hx
      dsimp only [Option.bind_eq_bind, Option.bind_some]
      rw [hempty]
      dsimp only [Option.bind_some]
      rw [hrun]
      dsimp only [Option.bind_some]
      rw [hforest.forest_eq, hcharts]
      rw [show l.nodeCount - 1 = l.sourceLength from rfl, hgoal]
      rfl

/-- Reading a text never stops the machine, whatever the text: it cuts between
characters within the text, and nowhere else. What is made from a sentence,
from arcs or from a text is stored as the lattice that it is, with the
distances of that lattice, if the machine can count the pairs of its nodes and
the entries of a table over its spans; what is no lattice is refused. Parsing
the lattice with any grammars never stops the machine either, and comes to the
charts, the forest and the goal of the parse. A text is never longer than what
the machine can count. -/
theorem machine_never_stops (top : Nat) :
    (∀ (v : Vocabulary) (text : String), bytes text.toList ≤ top →
        readText? top v text.toList = some (readText v text.toList))
      ∧ ∀ input : Input, input.bytes ≤ top →
          (∀ e, input.lattice = .error e → input.store? top = some (.error e))
            ∧ ∀ l, input.lattice = .ok l → l.nodeCount * l.nodeCount ≤ top →
                (l.nodeCount + 1) * (l.nodeCount + 2) ≤ top →
                ∃ s, input.store? top = some (.ok s)
                  ∧ s.nodes = l.outgoing
                  ∧ (∀ i j, s.distance? top i j = some (l.distance i j))
                  ∧ ∀ gs goal, parse? top s gs goal
                      = some ((l.parse gs goal).map fun r =>
                          (r.parse, r.goal)) := by
  refine ⟨fun v text hbytes => readText?_eq hbytes v,
    fun input hbytes => ?_⟩
  obtain ⟨hrefused, hstored⟩ := storeInput?_stores input hbytes
  refine ⟨hrefused, fun l hl htop hroom => ?_⟩
  obtain ⟨s, hstore, hs⟩ := hstored l hl htop
  exact ⟨s, hstore, hs.nodes, distance?_eq hs htop, parse?_eq hs htop hroom⟩

/-- A machine that counts to 20 parses sentences of two words. -/
theorem machine_never_stops_two_words :
    ∃ s, (Input.sentence [1, 2]).store? 20 = some (.ok s)
      ∧ ∀ gs goal, parse? 20 s gs goal
          = some (((Lattice.ofSentence [1, 2]).parse gs goal).map fun r =>
              (r.parse, r.goal)) := by
  obtain ⟨-, hstored⟩ := (machine_never_stops 20).2 (.sentence [1, 2])
    (by decide)
  obtain ⟨s, hstore, -, -, hparse⟩ := hstored _ rfl (by decide) (by decide)
  exact ⟨s, hstore, hparse⟩

end LatticeParsing.Machine
