/-
How parses with finished grammars start.

A finished grammar has a root and allows every empty span, and every node
reaches itself, so a parse is always set up (`exists_begin`) and every node
of the lattice gets one item at the root (`itemsAt_seeded_self`). The
closure has room for all constituents, as a grammar has at least as many
rules as left-hand sides (`roomy`).
-/
import LatticeParsing.Proofs.Grammar.Walks
import LatticeParsing.Proofs.Lattice.Building
import LatticeParsing.Proofs.Parse.Charting

namespace LatticeParsing

variable {E : PatternEngine}

/-- Every node reaches itself. -/
theorem Lattice.isSome_distance_self {l : Lattice} {i : Nat}
    (hi : i < l.nodeCount) : (l.distance i i).isSome := by
  rw [l.measuresPaths.self i hi]
  rfl

-- ============================================================= allowing

namespace GrammarContents

variable {g : GrammarContents E} {v : Vocabulary} {l : Lattice} {i j d : Nat}

/-- Empty spans are always allowed. -/
theorem allows_self (g : GrammarContents E) (v : Vocabulary) (i d : Nat) :
    (g.view v).allows i i d = true := by
  show Grammar.allows _ i i d = true
  unfold Grammar.allows
  split <;> simp

theorem allows_iff (hij : i ≠ j) :
    (g.view v).allows i j d = true
      ↔ ∀ limit, g.options.spanLimit = some limit → d ≤ limit := by
  show Grammar.allows _ i j d = true ↔ _
  unfold Grammar.allows
  rw [options_grammar]
  cases g.options.spanLimit with
  | none => simp
  | some limit => simp [hij]

end GrammarContents

namespace Charting

variable {gs : List (GrammarContents E)} {v : Vocabulary} {l : Lattice}
  {i j : Nat}

/-- The grammars that allow rules over a span are those that cover it. -/
theorem mem_allowed_view {view : GrammarView} (hij : i ≠ j) :
    view ∈ allowed l (gs.map (·.view v)) i j
      ↔ ∃ g ∈ gs, g.view v = view ∧ g.Covers l i j := by
  rw [mem_allowed, List.mem_map]
  constructor
  · intro h
    obtain ⟨⟨g, hg, rfl⟩, d, hd, hallows⟩ := h
    exact ⟨g, hg, rfl, d, hd, (GrammarContents.allows_iff hij).1 hallows⟩
  · intro h
    obtain ⟨g, hg, rfl, d, hd, hlimit⟩ := h
    exact ⟨⟨g, hg, rfl⟩, d, hd, (GrammarContents.allows_iff hij).2 hlimit⟩

/-- A grammar has no more left-hand sides than rules. -/
theorem roomy (gs : List (GrammarContents E)) (v : Vocabulary) :
    Roomy (gs.map (·.view v)) := by
  refine ⟨gs.flatMap fun g => g.listed.map (·.rule.lhs), fun chart => ?_, ?_⟩
  · unfold Parse.ruleBound
    rw [List.map_map, List.map_map, List.length_flatMap]
    refine Nat.le_of_eq ?_
    congr 1
    refine List.map_congr_left fun g _ => ?_
    show (g.listed.map _).length = ([(Place.mk [] g.grammar.root)].map
      fun p => p.node.ruleCount).sum
    simp [g.ruleCount_root]
  · intro view hview s p hp r hr
    obtain ⟨g, hg, rfl⟩ := List.mem_map.1 hview
    rw [← GrammarView.walk?_singleton] at hp
    have hlisted := ((GrammarContents.mem_rules_of_walk? hp).1 hr).1
    exact List.mem_flatMap.2 ⟨g, hg, List.mem_map_of_mem hlisted⟩

-- ============================================================== seeding

/-- The item at the root of a grammar over an empty span. -/
def seedItem (g : GrammarContents E) (j : Nat) : Item :=
  { start := j, stop := j, position := .root g.grammar.root }

theorem seeds_view (g : GrammarContents E) (v : Vocabulary) {js : List Nat}
    (hjs : ∀ j ∈ js, j < l.nodeCount) :
    ItemChart.seeds l (g.view v) js = .ok (js.map (seedItem g)) := by
  induction js with
  | nil => rfl
  | cons j js ih =>
      have hrest := ih fun k hk => hjs k (List.mem_cons_of_mem _ hk)
      obtain ⟨d, hd⟩ := Option.isSome_iff_exists.1
        (l.isSome_distance_self (hjs j (List.mem_cons_self ..)))
      unfold ItemChart.seeds
      rw [hd]
      simp only [g.allows_self v j d, if_true, hrest]
      rfl

theorem seeded_view (g : GrammarContents E) (v : Vocabulary) (l : Lattice) :
    ItemChart.seeded l (g.view v) = .ok ((ItemChart.empty l.nodeCount).addAll
      ((List.range l.nodeCount).map (seedItem g))) := by
  unfold ItemChart.seeded
  rw [seeds_view g v fun j hj => List.mem_range.1 hj]
  rfl

/-- Every node of the lattice has one item over its empty span: that at the
root. -/
theorem itemsAt_seeded_self (g : GrammarContents E) (v : Vocabulary)
    (l : Lattice) (i : Nat) :
    ((seeded l).chart (g.view v)).itemsAt i i
      = if i < l.nodeCount then [seedItem g i] else [] := by
  show (seededChart l (g.view v)).itemsAt i i = _
  unfold seededChart
  rw [seeded_view]
  have hspanning : ∀ n, ItemChart.spanning i i ((List.range n).map (seedItem g))
      = if i < n then [seedItem g i] else [] := by
    intro n
    induction n with
    | zero => rfl
    | succ n ih =>
        rw [List.range_succ, List.map_append, ItemChart.spanning_append, ih]
        by_cases hn : n = i
        · subst hn
          simp [ItemChart.spanning, seedItem]
        · have hlast : ItemChart.spanning i i [seedItem g n] = [] := by
            simp [ItemChart.spanning, seedItem, hn]
          rw [List.map_singleton, hlast, List.append_nil]
          by_cases hi : i < n
          · rw [if_pos hi, if_pos (by omega)]
          · rw [if_neg hi, if_neg (by omega)]
  by_cases hspan : i ≤ (ItemChart.empty l.nodeCount).limit
  · rw [ItemChart.itemsAt_addAll _ (Nat.le_refl i) hspan,
      ItemChart.itemsAt_empty, hspanning]
    rfl
  · have hi : l.nodeCount < i := not_le.1 hspan
    rw [ItemChart.itemsAt_eq_nil, if_neg (by omega)]
    rw [ItemChart.limit_addAll]
    exact fun h => hspan h.2

/-- A parse with finished grammars is always set up. -/
theorem exists_begin (l : Lattice) (gs : List (GrammarContents E))
    (v : Vocabulary) :
    ∃ start, Parse.begin l (gs.map (·.view v)) = .ok start := by
  have hall : ∃ charts, Parse.seedAll l (gs.map (·.view v)) = .ok charts := by
    induction gs with
    | nil => exact ⟨[], rfl⟩
    | cons g gs ih =>
        obtain ⟨charts, hcharts⟩ := ih
        refine ⟨⟨g.view v, (ItemChart.empty l.nodeCount).addAll
          ((List.range l.nodeCount).map (seedItem g))⟩ :: charts, ?_⟩
        rw [List.map_cons]
        unfold Parse.seedAll
        rw [seeded_view, hcharts]
        rfl
  obtain ⟨charts, hcharts⟩ := hall
  refine ⟨⟨charts, .empty l.nodeCount⟩, ?_⟩
  unfold Parse.begin
  rw [hcharts]
  rfl

/-- A parse with finished grammars comes to its end. -/
theorem exists_parse (l : Lattice) (gs : List (GrammarContents E))
    (v : Vocabulary) (goal : Symbol) :
    ∃ r, l.parse (gs.map (·.view v)) goal = .ok r
      ∧ r.parse = (final l (gs.map (·.view v))).toParse (gs.map (·.view v))
      ∧ r.goal = r.parse.goal? l goal := by
  obtain ⟨start, hstart⟩ := exists_begin l gs v
  obtain ⟨passes, hparse⟩ := parse_eq hstart goal
  exact ⟨_, hparse, rfl, rfl⟩

end Charting

end LatticeParsing
