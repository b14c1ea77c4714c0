/-
The items of a chart are the trails.

By the equations of the cells, an item over a span arises from an item over
a shorter one by crossing an arc or a constituent, and so does a trail. The
induction on the end of the span shows that the cell has one item for every
trail that `Holds`, and no other (`enumerates_final`). The items that a span
completes are told apart from those that are started over it: they are all
trails but those of a constituent alone (`enumerates_arrivals`).
-/
import LatticeParsing.Proofs.Grammar.Nonterminals
import LatticeParsing.Proofs.Parse.Enumeration
import LatticeParsing.Proofs.Parse.FinalCells
import LatticeParsing.Proofs.Parse.Setup
import LatticeParsing.Proofs.Parse.Trails

namespace LatticeParsing

open ItemChart

variable {E : PatternEngine} {l : Lattice} {f : Forest} {c : ItemChart}
  {g : GrammarContents E} {v : Vocabulary} {i j k : Nat} {ts u : List Step}

-- ============================================================= crossing

namespace ItemChart

/-- The item that arises by crossing a constituent, if there is one. -/
def crossed? (g : GrammarView) (e : Bool) (j : Nat) (x : Item)
    (entry : Symbol × Nat) : Option Item :=
  if Symbol.containsSorted x.position.nonterminals entry.1 then
    (g.follow? x.position entry.1).bind fun p =>
      if e && !p.hasExtensions then none
      else some (x.crossConstituent entry.2 p j)
  else none

theorem overConstituents_eq (g : GrammarView) (e : Bool) :
    overConstituents g f e i k j c
      = (c.itemsAt i k).flatMap fun x =>
          (f.cellAt k j).flatMap fun entry =>
            (crossed? g e j x entry).toList := by
  simp only [← List.filterMap_eq_flatMap_toList]
  rfl

/-- The item that arises by crossing an arc to node `j`, if there is one. -/
def landed? (g : GrammarView) (j : Nat) (a : Arc) (x : Item) : Option Item :=
  if 0 ≤ a.label ∧ a.head = j then
    (g.follow? x.position a.label).map fun p => x.crossArc a p j
  else none

/-- Crossing an arc gives the items that land where it leads, if it is
labelled by a terminal. -/
theorem spanning_overArc (hc : c.Placed) (g : GrammarView) {a : Arc}
    (ha : a ∈ l.arcsFrom k) :
    spanning i j (if a.label.isNonterminal then [] else
      (c.itemsAt i k).filterMap fun x =>
        (g.follow? x.position a.label).map fun p =>
          x.crossArc a p (k + a.spanLength))
      = (c.itemsAt i k).filterMap (landed? g j a) := by
  by_cases hlabel : 0 ≤ a.label
  · rw [Symbol.isNonterminal_eq_false.2 hlabel, if_neg Bool.false_ne_true,
      spanning, List.filter_filterMap, l.add_spanLength ha]
    refine List.filterMap_congr fun x hx => ?_
    have hstart := (hc i k x hx).1
    unfold landed?
    cases g.follow? x.position a.label with
    | none => simp
    | some p =>
        by_cases hj : a.head = j
        · subst hj
          simp [Item.crossArc, hstart, hlabel]
        · simp [Item.crossArc, hj]
  · rw [Symbol.isNonterminal_eq_true.2 (not_le.1 hlabel), if_pos rfl]
    refine (List.filterMap_eq_nil_iff.2 fun x _ => ?_).symm
    exact if_neg fun h => hlabel h.1

/-- Arcs that are left out give nothing. -/
theorem flatMap_filter_terminal (as : List Arc) (h : Arc → List Item) :
    (as.filter (!·.label.isNonterminal)).flatMap h
      = as.flatMap fun a => if a.label.isNonterminal then [] else h a := by
  induction as with
  | nil => rfl
  | cons a as ih =>
      cases ha : a.label.isNonterminal <;> simp [ha, ih]

theorem landing_eq (hc : c.Placed) (g : GrammarView) :
    landing g l i k j c
      = (l.arcsFrom k).zipIdx.flatMap fun e =>
          (c.itemsAt i k).flatMap fun x => (landed? g j e.1 x).toList := by
  have hzip : (l.arcsFrom k).flatMap
        (fun a => (c.itemsAt i k).filterMap (landed? g j a))
      = (l.arcsFrom k).zipIdx.flatMap
          fun e => (c.itemsAt i k).filterMap (landed? g j e.1) := by
    conv_lhs => rw [← List.zipIdx_map_fst 0 (l.arcsFrom k), List.flatMap_map]
  simp only [← List.filterMap_eq_flatMap_toList]
  rw [← hzip, landing, overArcs, flatMap_filter_terminal, spanning,
    List.filter_flatMap]
  exact List.flatMap_congr fun _ ha => spanning_overArc hc g ha

end ItemChart

-- ============================================================ positions

/-- Where one more symbol can be walked, a chart has the item before. -/
theorem holds_of_concat {s : Step}
    (h : ((g.view v).walk? (Trail.labels (ts ++ [s]))).isSome) :
    Holds (g.view v) ts := by
  rw [Trail.labels_concat, GrammarView.walk?_concat] at h
  cases hp : (g.view v).walk? (Trail.labels ts) with
  | none =>
      rw [hp] at h
      cases h
  | some p =>
      rw [hp] at h
      obtain ⟨q, hq⟩ := Option.isSome_iff_exists.1 h
      exact ⟨p, hp, fun _ _ _ _ => Position.hasExtensions_of_follow? hq⟩

theorem holds_nil (g : GrammarContents E) (v : Vocabulary) :
    Holds (g.view v) [] :=
  ⟨.root g.grammar.root, rfl, fun _ _ _ h => by cases h⟩

theorem crossed?_eq_some {e : Bool} {x y : Item} {entry : Symbol × Nat}
    (hx : Carries (g.view v) i k ts x) :
    crossed? (g.view v) e j x entry = some y
      ↔ entry.1 < 0 ∧ ∃ p, (g.view v).follow? x.position entry.1 = some p
          ∧ (e = true → p.hasExtensions = true)
          ∧ x.crossConstituent entry.2 p j = y := by
  have hcontains : Symbol.containsSorted x.position.nonterminals entry.1 = true
      ↔ entry.1 < 0 ∧ ((g.view v).follow? x.position entry.1).isSome :=
    GrammarContents.containsSorted_nonterminals
      (GrammarContents.isIn_of_walk? hx.position)
  unfold crossed?
  constructor
  · intro h
    split at h
    case isFalse => cases h
    case isTrue hnt =>
      obtain ⟨p, hp, h⟩ := Option.bind_eq_some_iff.1 h
      split at h
      case isTrue => cases h
      case isFalse hext =>
        refine ⟨(hcontains.1 hnt).1, p, hp, ?_, Option.some.inj h⟩
        intro heq
        subst heq
        simpa using hext
  · intro h'
    obtain ⟨hlhs, p, hp, hext, rfl⟩ := h'
    have hsome := Option.isSome_of_eq_some hp
    rw [if_pos (hcontains.2 ⟨hlhs, hsome⟩), hp]
    cases e with
    | false => rfl
    | true => simp [hext rfl]

theorem landed?_eq_some {a : Arc} {x y : Item} {g : GrammarView} :
    landed? g j a x = some y
      ↔ 0 ≤ a.label ∧ a.head = j ∧ ∃ p,
          g.follow? x.position a.label = some p ∧ x.crossArc a p j = y := by
  unfold landed?
  constructor
  · intro h
    split at h
    case isFalse => cases h
    case isTrue hcond =>
      exact ⟨hcond.1, hcond.2, Option.map_eq_some_iff.1 h⟩
  · intro h'
    obtain ⟨hlabel, hhead, hfollow⟩ := h'
    rw [if_pos ⟨hlabel, hhead⟩]
    exact Option.map_eq_some_iff.2 hfollow

-- ========================================================== enumeration

/-- The trails of the items over a span. -/
def Runs (l : Lattice) (f : Forest) (g : GrammarView) (i j : Nat)
    (ts : List Step) : Prop :=
  Trail l f i ts j ∧ Holds g ts

/-- The trails that cross a constituent from node `k`; with `e`, only those
after which something can follow. -/
def ViaConstituent (l : Lattice) (f : Forest) (g : GrammarView) (e : Bool)
    (i k j : Nat) (u : List Step) : Prop :=
  ∃ ts, Runs l f g i k ts ∧ ∃ lhs id, u = ts ++ [.constituent j lhs id]
    ∧ (Step.constituent j lhs id).Crosses l f k
    ∧ ∃ p, g.walk? (Trail.labels u) = some p
        ∧ (e = true → p.hasExtensions = true)

/-- The trails that cross an arc from node `k`. -/
def ViaArc (l : Lattice) (f : Forest) (g : GrammarView) (i k j : Nat)
    (u : List Step) : Prop :=
  ∃ ts, Runs l f g i k ts ∧ ∃ n a, u = ts ++ [.arc n a]
    ∧ (Step.arc n a).Crosses l f k ∧ a.head = j
    ∧ (g.walk? (Trail.labels u)).isSome

theorem concat_eq_singleton {s s' : Step} (h : ts ++ [s] = [s']) :
    ts = [] ∧ s = s' :=
  List.append_singleton_inj.1 (show ts ++ [s] = [] ++ [s'] from h)

/-- Crossing the constituents of a cell from one item makes items for the
trails that go on over them. -/
theorem enumerates_crossed {e : Bool} {x : Item}
    (hx : Carries (g.view v) i k ts x) (hnodup : (f.cellAt k j).Nodup) :
    Enumerates (Carries (g.view v) i j)
      (fun u => ∃ lhs id, u = ts ++ [.constituent j lhs id]
        ∧ (Step.constituent j lhs id).Crosses l f k
        ∧ ∃ p, (g.view v).walk? (Trail.labels u) = some p
            ∧ (e = true → p.hasExtensions = true))
      ((f.cellAt k j).flatMap fun entry =>
        (crossed? (g.view v) e j x entry).toList) := by
  have hentries := (Enumerates.self hnodup).flatMap
    (S := Carries (g.view v) i j)
    (Q := fun entry u => u = ts ++ [.constituent j entry.1 entry.2]
      ∧ entry.1 < 0 ∧ ∃ p, (g.view v).walk? (Trail.labels u) = some p
        ∧ (e = true → p.hasExtensions = true))
    (f := fun entry => (crossed? (g.view v) e j x entry).toList) ?_ ?_
  · refine hentries.congr fun u => ?_
    constructor
    · intro h
      obtain ⟨⟨lhs, id⟩, hmem, hu, hlhs, hp⟩ := h
      exact ⟨lhs, id, hu, ⟨hmem, hlhs⟩, hp⟩
    · intro h
      obtain ⟨lhs, id, hu, ⟨hmem, hlhs⟩, hp⟩ := h
      exact ⟨(lhs, id), hmem, hu, hlhs, hp⟩
  · intro entry _ _ heq
    subst heq
    refine .toList (t := ts ++ [.constituent j entry.1 entry.2])
      (fun y hy => ?_) fun u hu => ?_
    · obtain ⟨hlhs, p, hp, hext, rfl⟩ := (crossed?_eq_some hx).1 hy
      have hcross := hx.crossConstituent (j := j) entry.2 hp
      exact ⟨⟨rfl, hlhs, p, (hx.follow _).trans hp, hext⟩, hcross⟩
    · obtain ⟨rfl, hlhs, p, hp, hext⟩ := hu
      rw [hx.follow] at hp
      exact ⟨rfl, Option.isSome_of_eq_some
        ((crossed?_eq_some hx).2 ⟨hlhs, p, hp, hext, rfl⟩)⟩
  · intro e e' u _ _ hu hu'
    obtain ⟨lhs, id⟩ := e
    obtain ⟨lhs', id'⟩ := e'
    obtain ⟨hu, -⟩ := hu
    obtain ⟨hu', -⟩ := hu'
    have hstep := (List.append_singleton_inj.1 (hu.symm.trans hu')).2
    injection hstep with _ hlhs hid
    exact Prod.ext hlhs hid

/-- Crossing constituents makes items for the trails that do so. -/
theorem enumerates_overConstituents {e : Bool}
    (hcell : Enumerates (Carries (g.view v) i k) (Runs l f (g.view v) i k)
      (c.itemsAt i k))
    (hnodup : (f.cellAt k j).Nodup) :
    Enumerates (Carries (g.view v) i j)
      (ViaConstituent l f (g.view v) e i k j)
      (overConstituents (g.view v) f e i k j c) := by
  rw [overConstituents_eq]
  refine hcell.flatMap (fun ts x _ hx => enumerates_crossed hx hnodup) ?_
  intro ts ts' u _ _ hu hu'
  obtain ⟨lhs, id, hu, -⟩ := hu
  obtain ⟨lhs', id', hu', -⟩ := hu'
  exact (List.append_singleton_inj.1 (hu.symm.trans hu')).1

/-- Crossing one arc makes items for the trails that end with it. -/
theorem enumerates_landed (a : Arc) (n : Nat)
    (hcell : Enumerates (Carries (g.view v) i k) (Runs l f (g.view v) i k)
      (c.itemsAt i k)) :
    Enumerates (Carries (g.view v) i j)
      (fun u => ∃ ts, Runs l f (g.view v) i k ts ∧ u = ts ++ [.arc n a]
        ∧ 0 ≤ a.label ∧ a.head = j
        ∧ ((g.view v).walk? (Trail.labels u)).isSome)
      ((c.itemsAt i k).flatMap fun x =>
        (landed? (g.view v) j a x).toList) := by
  refine hcell.flatMap (fun ts x _ hx => ?_) ?_
  · refine .toList (t := ts ++ [.arc n a]) (fun y hy => ?_) fun u hu => ?_
    · obtain ⟨hlabel, hhead, p, hp, rfl⟩ := landed?_eq_some.1 hy
      have hwalk := Option.isSome_of_eq_some ((hx.follow (.arc n a)).trans hp)
      exact ⟨⟨rfl, hlabel, hhead, hwalk⟩, hx.crossArc n hp⟩
    · obtain ⟨rfl, hlabel, hhead, hwalk⟩ := hu
      rw [hx.follow] at hwalk
      obtain ⟨p, hp⟩ := Option.isSome_iff_exists.1 hwalk
      exact ⟨rfl, Option.isSome_of_eq_some
        (landed?_eq_some.2 ⟨hlabel, hhead, p, hp, rfl⟩)⟩
  · intro ts ts' u _ _ hu hu'
    obtain ⟨hu, -⟩ := hu
    obtain ⟨hu', -⟩ := hu'
    exact (List.append_singleton_inj.1 (hu.symm.trans hu')).1

/-- Crossing arcs makes items for the trails that do so. -/
theorem enumerates_landing (hc : c.Placed)
    (hcell : Enumerates (Carries (g.view v) i k) (Runs l f (g.view v) i k)
      (c.itemsAt i k)) :
    Enumerates (Carries (g.view v) i j) (ViaArc l f (g.view v) i k j)
      (landing (g.view v) l i k j c) := by
  have hnodup : (l.arcsFrom k).zipIdx.Nodup := by
    refine List.Nodup.of_map Prod.snd ?_
    rw [List.zipIdx_map_snd]
    exact List.nodup_range'
  have hlanded : ∀ (e e' : Arc × Nat), e ∈ (l.arcsFrom k).zipIdx → e = e' →
      Enumerates (Carries (g.view v) i j)
        (fun u => ∃ ts, Runs l f (g.view v) i k ts ∧ u = ts ++ [.arc e.2 e.1]
          ∧ 0 ≤ e.1.label ∧ e.1.head = j
          ∧ ((g.view v).walk? (Trail.labels u)).isSome)
        ((c.itemsAt i k).flatMap fun x =>
          (landed? (g.view v) j e'.1 x).toList) := by
    intro e _ _ heq
    subst heq
    exact enumerates_landed e.1 e.2 hcell
  rw [landing_eq hc]
  refine ((Enumerates.self hnodup).flatMap hlanded ?_).congr fun u => ?_
  · intro e e' u _ _ hu hu'
    obtain ⟨a, n⟩ := e
    obtain ⟨a', n'⟩ := e'
    obtain ⟨ts, -, hu, -⟩ := hu
    obtain ⟨ts', -, hu', -⟩ := hu'
    injection (List.append_singleton_inj.1 (hu.symm.trans hu')).2 with hn ha
    exact Prod.ext ha hn
  · constructor
    · intro h
      obtain ⟨⟨a, n⟩, hmem, ts, hts, hu, hlabel, hhead, hwalk⟩ := h
      exact ⟨ts, hts, n, a, hu,
        ⟨List.mk_mem_zipIdx_iff_getElem?.1 hmem, hlabel⟩, hhead, hwalk⟩
    · intro h
      obtain ⟨ts, hts, n, a, hu, ⟨hmem, hlabel⟩, hhead, hwalk⟩ := h
      exact ⟨(a, n), List.mk_mem_zipIdx_iff_getElem?.2 hmem, ts, hts, hu,
        hlabel, hhead, hwalk⟩

/-- A trail crosses its last arc from one node. -/
theorem ViaArc.unique {k' : Nat} {g : GrammarView}
    (h : ViaArc l f g i k j u) (h' : ViaArc l f g i k' j u) : k = k' := by
  obtain ⟨ts, hts, n, a, hu, -⟩ := h
  obtain ⟨ts', hts', n', a', hu', -⟩ := h'
  rw [← (List.append_singleton_inj.1 (hu.symm.trans hu')).1] at hts'
  exact hts.1.stop_unique hts'.1

theorem ViaConstituent.unique {k' : Nat} {g : GrammarView} {e e' : Bool}
    (h : ViaConstituent l f g e i k j u)
    (h' : ViaConstituent l f g e' i k' j u) : k = k' := by
  obtain ⟨ts, hts, lhs, id, hu, -⟩ := h
  obtain ⟨ts', hts', lhs', id', hu', -⟩ := h'
  rw [← (List.append_singleton_inj.1 (hu.symm.trans hu')).1] at hts'
  exact hts.1.stop_unique hts'.1

/-- The last step of a trail is an arc or a constituent. -/
theorem ViaArc.not_viaConstituent {k' : Nat} {g : GrammarView} {e : Bool}
    (h : ViaArc l f g i k j u) : ¬ ViaConstituent l f g e i k' j u := by
  intro h'
  obtain ⟨ts', -, lhs, id, hu', -⟩ := h'
  obtain ⟨ts, -, n, a, hu, -⟩ := h
  cases (List.append_singleton_inj.1 (hu.symm.trans hu')).2

-- ============================================================= the end

namespace Charting

variable {gs : List GrammarView}

theorem inside_final (l : Lattice) (gs : List GrammarView) :
    Trail.Inside l (final l gs).forest := by
  intro i j e he
  by_contra hout
  rw [cellAt_final_outside hout] at he
  cases he

theorem nodup_cellAt_final (l : Lattice) (gs : List GrammarView) (i j : Nat) :
    ((final l gs).forest.cellAt i j).Nodup :=
  ((fit_final l gs).sound.ascending i j).imp fun hlt heq => by
    rw [heq] at hlt
    exact lt_irrefl _ hlt

/-- The trails of the items that arrive over a span: all but those of a
constituent alone. -/
def Arrives (l : Lattice) (f : Forest) (g : GrammarView) (i j : Nat)
    (u : List Step) : Prop :=
  Trail l f i u j ∧ (g.walk? (Trail.labels u)).isSome
    ∧ ∀ stop lhs id, u ≠ [.constituent stop lhs id]

theorem arrives_of_viaArc {g : GrammarView} (h : ViaArc l f g i k j u) :
    Arrives l f g i j u := by
  obtain ⟨ts, hts, n, a, rfl, hcross, hhead, hwalk⟩ := h
  refine ⟨Trail.concat_iff.2 ⟨k, hts.1, hcross, hhead⟩, hwalk, ?_⟩
  intro stop lhs id hsingle
  cases (concat_eq_singleton hsingle).2

/-- Behind a step to a later node a constituent is not alone. -/
theorem arrives_of_viaConstituent {g : GrammarView} {e : Bool} (hik : i < k)
    (h : ViaConstituent l f g e i k j u) : Arrives l f g i j u := by
  obtain ⟨ts, hts, lhs, id, rfl, hcross, p, hp, -⟩ := h
  refine ⟨Trail.concat_iff.2 ⟨k, hts.1, hcross, rfl⟩,
    Option.isSome_of_eq_some hp, ?_⟩
  intro stop lhs' id' hsingle
  have htrail := hts.1
  rw [(concat_eq_singleton hsingle).1] at htrail
  exact Nat.ne_of_lt hik htrail

/-- The last step of a trail that arrives over a span: a constituent from a
node in between, or an arc. -/
theorem arrives_iff (hf : Trail.Inside l f) (hij : i < j) :
    Arrives l f (g.view v) i j u
      ↔ (∃ k, k ∈ List.range' (i + 1) (j - (i + 1))
            ∧ ViaArc l f (g.view v) i (k - 1) j u)
          ∨ (∃ k, k ∈ List.range' (i + 1) (j - (i + 1))
            ∧ ViaConstituent l f (g.view v) false i k j u)
          ∨ ViaArc l f (g.view v) i (j - 1) j u := by
  constructor
  · intro h'
    obtain ⟨htrail, hwalk, hsingle⟩ := h'
    rcases List.eq_nil_or_concat u with rfl | ⟨ts, s, hu⟩
    · exact absurd htrail (Nat.ne_of_lt hij)
    rw [List.concat_eq_append] at hu
    subst hu
    obtain ⟨k, hts, hs, hstop⟩ := Trail.concat_iff.1 htrail
    have hik := hts.le hf
    have hkj := (Trail.forward_of_crosses hf hs).1
    have hholds := holds_of_concat hwalk
    cases s with
    | arc n a =>
        have hvia : ViaArc l f (g.view v) i k j (ts ++ [.arc n a]) :=
          ⟨ts, ⟨hts, hholds⟩, n, a, rfl, hs, hstop, hwalk⟩
        by_cases hk : k = j - 1
        · exact Or.inr (Or.inr (hk ▸ hvia))
        · refine Or.inl ⟨k + 1, List.mem_range'_1.2 ?_, hvia⟩
          omega
    | constituent stop lhs id =>
        have hstop : stop = j := hstop
        subst hstop
        -- from the start itself it would be a constituent alone
        have hne : i ≠ k := by
          intro heq
          subst heq
          rw [hts.eq_nil hf] at hsingle
          exact hsingle stop lhs id rfl
        obtain ⟨p, hp⟩ := Option.isSome_iff_exists.1 hwalk
        refine Or.inr (Or.inl ⟨k, List.mem_range'_1.2 ?_, ts, ⟨hts, hholds⟩,
          lhs, id, rfl, hs, p, hp, fun h => by cases h⟩)
        omega
  · intro h'
    rcases h' with ⟨k, -, hvia⟩ | ⟨k, hk, hvia⟩ | hvia
    · exact arrives_of_viaArc hvia
    · exact arrives_of_viaConstituent (List.mem_range'_1.1 hk).1 hvia
    · exact arrives_of_viaArc hvia

/-- The items of shorter spans being those of their trails, so are those
that arrive over a span. -/
theorem enumerates_arrivals_of (hij : i < j)
    (hcells : ∀ k, i ≤ k → k < j → Enumerates (Carries (g.view v) i k)
      (Runs l (final l gs).forest (g.view v) i k)
      (((final l gs).chart (g.view v)).itemsAt i k)) :
    Enumerates (Carries (g.view v) i j)
      (Arrives l (final l gs).forest (g.view v) i j)
      (arrivals l (final l gs) i j (g.view v)) := by
  have hplaced := (fit_final l gs).placed (g.view v)
  have hlong := Enumerates.range' (i + 1) (j - (i + 1))
    (S := Carries (g.view v) i j)
    (Q := fun k => ViaArc l (final l gs).forest (g.view v) i (k - 1) j)
    (f := fun k => landing (g.view v) l i (k - 1) j
      ((final l gs).chart (g.view v)))
    (fun k hik hkj => enumerates_landing hplaced
      (hcells (k - 1) (by omega) (by omega)))
    (fun k k' u hik hik' hu hu' => by
      have heq := hu.unique hu'
      omega)
  have hspanning := Enumerates.range' (i + 1) (j - (i + 1))
    (S := Carries (g.view v) i j)
    (Q := fun k => ViaConstituent l (final l gs).forest (g.view v) false i k j)
    (f := fun k => overConstituents (g.view v) (final l gs).forest false i k j
      ((final l gs).chart (g.view v)))
    (fun k hik hkj => enumerates_overConstituents
      (hcells k (by omega) (by omega)) (nodup_cellAt_final l gs k j))
    (fun k k' u _ _ hu hu' => hu.unique hu')
  have hshort := enumerates_landing (j := j) hplaced
    (hcells (j - 1) (by omega) (by omega))
  have hboth := (hlong.append hspanning fun u ⟨k, _, hu⟩ ⟨k', _, hu'⟩ =>
    hu.not_viaConstituent hu').append hshort (by
      intro u h hu'
      rcases h with ⟨k, hk, hu⟩ | ⟨k, hk, hu⟩
      · have heq := hu.unique hu'
        have hk := List.mem_range'_1.1 hk
        omega
      · exact hu'.not_viaConstituent hu)
  refine hboth.congr fun u => ?_
  rw [arrives_iff (inside_final l gs) hij, or_assoc]

/-- Items arrive over a span or are started over it. -/
theorem runs_iff : Runs l f (g.view v) i j u
    ↔ Arrives l f (g.view v) i j u
      ∨ ViaConstituent l f (g.view v) true i i j u := by
  constructor
  · intro h
    obtain ⟨htrail, p, hp, hext⟩ := h
    by_cases hsingle : ∃ stop lhs id, u = [.constituent stop lhs id]
    · obtain ⟨stop, lhs, id, rfl⟩ := hsingle
      obtain ⟨hcross, hstop⟩ := htrail
      have hstop : stop = j := hstop
      subst hstop
      exact Or.inr ⟨[], ⟨rfl, holds_nil g v⟩, lhs, id, rfl, hcross, p, hp,
        fun _ => hext stop lhs id rfl⟩
    · refine Or.inl ⟨htrail, Option.isSome_of_eq_some hp, ?_⟩
      exact fun stop lhs id hu => hsingle ⟨stop, lhs, id, hu⟩
  · intro h
    rcases h with ⟨htrail, hwalk, hsingle⟩ |
      ⟨ts, hts, lhs, id, rfl, hcross, p, hp, hext⟩
    · obtain ⟨p, hp⟩ := Option.isSome_iff_exists.1 hwalk
      exact ⟨htrail, p, hp, fun stop lhs id hu =>
        absurd hu (hsingle stop lhs id)⟩
    · exact ⟨Trail.concat_iff.2 ⟨i, hts.1, hcross, rfl⟩, p, hp,
        fun _ _ _ _ => hext rfl⟩

theorem enumerates_seeded (gs : List GrammarView) (g : GrammarContents E)
    (v : Vocabulary) (hi : i < l.nodeCount) :
    Enumerates (Carries (g.view v) i i)
      (Runs l (final l gs).forest (g.view v) i i)
      (((final l gs).chart (g.view v)).itemsAt i i) := by
  rw [itemsAt_final_self, itemsAt_seeded_self, if_pos hi]
  refine ⟨[[]], List.nodup_singleton _, fun ts => ?_,
    .cons ⟨_, rfl, rfl⟩ .nil⟩
  rw [List.mem_singleton]
  constructor
  · intro heq
    subst heq
    exact ⟨rfl, holds_nil g v⟩
  · exact fun hts => hts.1.eq_nil (inside_final l gs)

/-- A cell of a chart has one item for every trail that is held. -/
theorem enumerates_final (hi : i ≤ l.sourceLength) (hij : i ≤ j)
    (hj : j ≤ l.sourceLength) :
    Enumerates (Carries (g.view v) i j)
      (Runs l (final l gs).forest (g.view v) i j)
      (((final l gs).chart (g.view v)).itemsAt i j) := by
  have hnode : i < l.nodeCount := by
    rw [l.nodeCount_eq]
    exact Nat.lt_succ_of_le hi
  -- by the end of the span: what arrives there comes from earlier ends of
  -- the row, and what is started there from the seed
  induction j using Nat.strongRecOn with
  | ind j ih =>
      rcases Nat.eq_or_lt_of_le hij with rfl | hlt
      · exact enumerates_seeded gs g v hnode
      have harrive := enumerates_arrivals_of hlt fun k hik hkj =>
        ih k hkj hik (by omega)
      have hstart := enumerates_overConstituents (e := true) (j := j)
        (enumerates_seeded gs g v hnode)
        (nodup_cellAt_final l gs i j)
      rw [itemsAt_final hlt hj]
      refine (harrive.append hstart ?_).congr fun u => runs_iff.symm
      intro u harrives hvia
      obtain ⟨-, -, hsingle⟩ := harrives
      obtain ⟨ts, hts, lhs, id, rfl, -⟩ := hvia
      rw [hts.1.eq_nil (inside_final l gs)] at hsingle
      exact hsingle j lhs id rfl

theorem enumerates_arrivals (gs : List GrammarView) (g : GrammarContents E)
    (v : Vocabulary) (hij : i < j) (hj : j ≤ l.sourceLength) :
    Enumerates (Carries (g.view v) i j)
      (Arrives l (final l gs).forest (g.view v) i j)
      (arrivals l (final l gs) i j (g.view v)) :=
  enumerates_arrivals_of hij fun _ hik hkj =>
    enumerates_final (by omega) hik (by omega)

/-- Beyond the lattice there are neither trails nor items. -/
theorem enumerates_outside (hij : i < j) (hj : l.sourceLength < j) :
    Enumerates (Carries (g.view v) i j)
      (Runs l (final l gs).forest (g.view v) i j)
      (((final l gs).chart (g.view v)).itemsAt i j) := by
  rw [itemsAt_final_outside (Nat.ne_of_lt hij) (by omega)]
  refine .nil fun ts hts => ?_
  rcases hts.1.le_sourceLength (inside_final l gs) with rfl | hle
  · exact Nat.ne_of_lt hij hts.1
  · omega

end Charting

/-- The charts lose nothing and repeat nothing. At the end of every parse,
the cell of a span from `i` to a later node `j` has exactly one item for
every trail from `i` to `j`, over the arcs of the lattice and the
constituents of the final forest, along which the grammar can be walked; only
a constituent alone after which nothing can follow has no item. The item is
at the position that the walk leads to and carries the constituents and the
path of the trail. Over the empty span of a node of the lattice there is the
item at the root, and there are no others. -/
theorem items_are_trails (l : Lattice) (gs : List (GrammarContents E))
    (v : Vocabulary) (goal : Symbol) :
    ∃ r, l.parse (gs.map (·.view v)) goal = .ok r
      ∧ r.parse.charts.length = gs.length
      ∧ ∀ (n : Nat) (g : GrammarContents E), gs[n]? = some g →
          ∃ c, r.parse.charts[n]? = some ⟨g.view v, c⟩
            ∧ (∀ i j, i < j →
                Enumerates (Carries (g.view v) i j)
                  (fun ts => Trail l r.parse.forest i ts j
                    ∧ Holds (g.view v) ts)
                  (c.itemsAt i j))
            ∧ (∀ i, i < l.nodeCount → c.itemsAt i i
                = [{ start := i, stop := i, position := .root g.grammar.root }])
            ∧ ∀ i j, j < i ∨ l.nodeCount ≤ j → c.itemsAt i j = [] := by
  obtain ⟨r, hparse, hstate, -⟩ := Charting.exists_parse l gs v goal
  refine ⟨r, hparse, ?_, fun n g hg => ?_⟩
  · rw [hstate]
    simp [Charting.toParse]
  refine ⟨(Charting.final l (gs.map (·.view v))).chart (g.view v),
    ?_, ?_, ?_, ?_⟩
  · rw [hstate]
    simp [Charting.toParse, hg]
  · intro i j hij
    rw [hstate]
    by_cases hj : j ≤ l.sourceLength
    · exact Charting.enumerates_final (by omega) (Nat.le_of_lt hij) hj
    · exact Charting.enumerates_outside hij (by omega)
  · intro i hi
    rw [Charting.itemsAt_final_self, Charting.itemsAt_seeded_self, if_pos hi]
    rfl
  · intro i j hout
    have hcount := l.nodeCount_eq
    by_cases hij : i = j
    · subst hij
      rw [Charting.itemsAt_final_self, Charting.itemsAt_seeded_self,
        if_neg (by omega)]
    · exact Charting.itemsAt_final_outside hij (by omega) _

end LatticeParsing
