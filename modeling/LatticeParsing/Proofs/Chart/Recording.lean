/-
What recording does to the derivations of a constituent.

A derivation counts as another one by its key: the identity of its rule and
its antecedents. `collect` records a list of derivations from left to
right, and `Collects` says what comes of it: every key of the list once, in
the company of a rule that it was recorded with, at the least of all costs
that it was recorded with, compared in the order of the list.

The invariant of the induction is `Collects` itself, for the part of the
list that has been recorded.
-/
import LatticeParsing.Chart.Forest
import LatticeParsing.Proofs.Cost.Least
import Mathlib.Data.List.Nodup

namespace LatticeParsing

-- ================================================================ keys

namespace Derivation

/-- What tells derivations of one constituent apart. -/
def key (d : Derivation) : RuleId × List Nat := (d.rule.id, d.antecedents)

theorem sameAs_iff {d e : Derivation} : d.sameAs e = true ↔ d.key = e.key := by
  simp [sameAs, key]

/-- The derivation at a lesser cost. -/
def lower (c : Cost) (d : Derivation) : Derivation :=
  { d with cost := d.cost.least c }

@[simp]
theorem key_lower (c : Cost) (d : Derivation) : (d.lower c).key = d.key := rfl

end Derivation

-- =========================================================== recording

namespace Constituent

/-- Changing the first element with a property changes all of them where no
two share it. -/
theorem modify_findIdx? {α : Type} {p : α → Bool} {xs : List α} {k : Nat}
    (f : α → α) (h : xs.findIdx? p = some k)
    (hp : xs.Pairwise fun x y => ¬ (p x = true ∧ p y = true)) :
    xs.modify k f = xs.map fun x => if p x then f x else x := by
  induction xs generalizing k with
  | nil => simp at h
  | cons x xs ih =>
      obtain ⟨hx, hxs⟩ := List.pairwise_cons.1 hp
      rw [List.findIdx?_cons] at h
      split at h
      case isTrue hpx =>
        injection h with h
        subst h
        have hrest : xs.map (fun y => if p y then f y else y) = xs := by
          have hneg : ∀ y ∈ xs, (if p y then f y else y) = y :=
            fun y hy => if_neg fun hpy => hx y hy ⟨hpx, hpy⟩
          rw [List.map_congr_left hneg, List.map_id']
        simp [hpx, hrest]
      case isFalse hpx =>
        obtain ⟨m, hm, rfl⟩ := Option.map_eq_some_iff.1 h
        simp [hpx, ih hm hxs]

/-- A derivation with a new key comes last. -/
theorem record_new {c : Constituent} {d : Derivation}
    (h : d.key ∉ c.derivations.toList.map Derivation.key) :
    c.record d = ({ c with derivations := c.derivations.push d }, true) := by
  have hnone : c.derivations.findIdx? (·.sameAs d) = none := by
    rw [Array.findIdx?_eq_none_iff]
    intro e he
    rw [Bool.eq_false_iff]
    intro hsame
    exact h (List.mem_map.2 ⟨e, by simpa using he,
      Derivation.sameAs_iff.1 hsame⟩)
  unfold record
  rw [hnone]

/-- A derivation with a key that there is lowers the cost of the derivation
that has it. -/
theorem record_old {c : Constituent} {d : Derivation}
    (hc : (c.derivations.toList.map Derivation.key).Nodup)
    (h : d.key ∈ c.derivations.toList.map Derivation.key) :
    ∃ ds, c.record d = ({ c with derivations := ds }, false)
      ∧ ds.toList = c.derivations.toList.map fun e =>
          if e.key = d.key then e.lower d.cost else e := by
  obtain ⟨e, he, hkey⟩ := List.mem_map.1 h
  have hsome : (c.derivations.toList.findIdx? (·.sameAs d)).isSome := by
    rw [List.findIdx?_isSome, List.any_eq_true]
    exact ⟨e, he, Derivation.sameAs_iff.2 hkey⟩
  obtain ⟨k, hk⟩ := Option.isSome_iff_exists.1 hsome
  refine ⟨c.derivations.modify k (·.lower d.cost), ?_, ?_⟩
  · unfold record
    rw [← @Array.toArray_toList _ c.derivations, List.findIdx?_toArray, hk]
    rfl
  · have hp : c.derivations.toList.Pairwise fun x y =>
        ¬ (x.sameAs d = true ∧ y.sameAs d = true) := by
      refine (List.pairwise_map.1 hc).imp fun hxy hsame => hxy ?_
      rw [Derivation.sameAs_iff.1 hsame.1, Derivation.sameAs_iff.1 hsame.2]
    rw [Array.toList_modify, modify_findIdx? _ hk hp]
    simp only [Derivation.sameAs_iff]

/-- Records derivations from left to right. -/
def recordAll (c : Constituent) (ds : List Derivation) : Constituent :=
  ds.foldl (fun c d => (c.record d).1) c

@[simp]
theorem record_id (c : Constituent) (d : Derivation) :
    (c.record d).1.id = c.id := by
  unfold record
  split <;> rfl

@[simp]
theorem record_lhs (c : Constituent) (d : Derivation) :
    (c.record d).1.lhs = c.lhs := by
  unfold record
  split <;> rfl

@[simp]
theorem record_start (c : Constituent) (d : Derivation) :
    (c.record d).1.start = c.start := by
  unfold record
  split <;> rfl

@[simp]
theorem record_stop (c : Constituent) (d : Derivation) :
    (c.record d).1.stop = c.stop := by
  unfold record
  split <;> rfl

end Constituent

-- ========================================================== collecting

/-- `xs` holds every key of `ds` once, with a rule that it has in `ds`, at
the least of the costs that it has there. -/
structure Collects (ds xs : List Derivation) : Prop where
  nodup : (xs.map Derivation.key).Nodup
  mem_keys : ∀ k, k ∈ xs.map Derivation.key ↔ k ∈ ds.map Derivation.key
  rule : ∀ e ∈ xs, ∃ d ∈ ds, d.key = e.key ∧ d.rule = e.rule
  cost : ∀ e ∈ xs,
    Cost.leastOf ((ds.filter (·.key = e.key)).map (·.cost)) = some e.cost

namespace Collects

variable {ds xs : List Derivation}

theorem nil : Collects [] [] :=
  ⟨List.nodup_nil, fun _ => Iff.rfl, fun _ h => absurd h List.not_mem_nil,
    fun _ h => absurd h List.not_mem_nil⟩

/-- A key that is not among those of a list filters nothing from it. -/
theorem filter_key_eq_nil {k : RuleId × List Nat}
    (h : k ∉ ds.map Derivation.key) : ds.filter (·.key = k) = [] := by
  rw [List.filter_eq_nil_iff]
  intro d hd hk
  exact h (List.mem_map.2 ⟨d, hd, by simpa using hk⟩)

/-- Recording a derivation with a new key. -/
theorem concat_new {d : Derivation} (h : Collects ds xs)
    (hd : d.key ∉ xs.map Derivation.key) :
    Collects (ds ++ [d]) (xs ++ [d]) where
  nodup := by
    rw [List.map_append, List.nodup_append]
    refine ⟨h.nodup, List.nodup_singleton _, ?_⟩
    intro k hk k' hk' heq
    subst heq
    rw [List.map_singleton, List.mem_singleton] at hk'
    exact hd (hk' ▸ hk)
  mem_keys := by
    intro k
    rw [List.map_append, List.map_append, List.mem_append, List.mem_append,
      h.mem_keys]
  rule := by
    intro e he
    rcases List.mem_append.1 he with he | he
    · obtain ⟨d', hd', hsame⟩ := h.rule e he
      exact ⟨d', List.mem_append_left _ hd', hsame⟩
    · rw [List.mem_singleton] at he
      subst he
      exact ⟨e, List.mem_append_right _ (List.mem_singleton_self _), rfl, rfl⟩
  cost := by
    intro e he
    rw [List.filter_append, List.map_append]
    rcases List.mem_append.1 he with he | he
    · have hne : d.key ≠ e.key := fun hk =>
        hd (hk ▸ List.mem_map.2 ⟨e, he, rfl⟩)
      have hlast : [d].filter (·.key = e.key) = [] := by
        simpa using hne
      rw [hlast, List.map_nil, List.append_nil]
      exact h.cost e he
    · rw [List.mem_singleton] at he
      subst he
      rw [filter_key_eq_nil fun hk => hd ((h.mem_keys _).2 hk)]
      simp [Cost.leastOf]

/-- Lowering costs changes no key. -/
theorem map_key_lower (d : Derivation) (xs : List Derivation) :
    (xs.map fun e => if e.key = d.key then e.lower d.cost else e).map
        Derivation.key
      = xs.map Derivation.key := by
  rw [List.map_map]
  refine List.map_congr_left fun e _ => ?_
  simp only [Function.comp]
  split <;> rfl

/-- Recording a derivation with a key that is there. -/
theorem concat_old {d : Derivation} (h : Collects ds xs)
    (hd : d.key ∈ xs.map Derivation.key) :
    Collects (ds ++ [d])
      (xs.map fun e => if e.key = d.key then e.lower d.cost else e) where
  nodup := by
    rw [map_key_lower]
    exact h.nodup
  mem_keys := by
    intro k
    rw [List.map_append, List.mem_append, ← h.mem_keys, map_key_lower,
      List.map_singleton, List.mem_singleton]
    exact ⟨Or.inl, fun hk => hk.elim id fun hk => hk ▸ hd⟩
  rule := by
    intro e' he'
    obtain ⟨e, he, rfl⟩ := List.mem_map.1 he'
    obtain ⟨d', hd', hsame⟩ := h.rule e he
    refine ⟨d', List.mem_append_left _ hd', ?_⟩
    split <;> exact hsame
  cost := by
    intro e' he'
    obtain ⟨e, he, rfl⟩ := List.mem_map.1 he'
    have hcost := h.cost e he
    split
    case isTrue hk =>
      have hlast : [d].filter (·.key = e.key) = [d] := by simp [hk]
      rw [Derivation.key_lower, List.filter_append, hlast, List.map_append]
      exact Cost.leastOf_concat hcost d.cost
    case isFalse hk =>
      have hlast : [d].filter (·.key = e.key) = [] := by
        simpa using fun h => hk h.symm
      rw [List.filter_append, hlast, List.append_nil]
      exact hcost

end Collects

namespace Constituent

/-- Recording one derivation more collects one derivation more. -/
theorem collects_record {c : Constituent} {ds : List Derivation}
    (h : Collects ds c.derivations.toList) (d : Derivation) :
    Collects (ds ++ [d]) (c.record d).1.derivations.toList := by
  by_cases hd : d.key ∈ c.derivations.toList.map Derivation.key
  · obtain ⟨es, hrec, hes⟩ := record_old h.nodup hd
    rw [hrec]
    show Collects _ es.toList
    rw [hes]
    exact h.concat_old hd
  · rw [record_new hd]
    show Collects _ (c.derivations.push d).toList
    rw [Array.toList_push]
    exact h.concat_new hd

/-- What recording from left to right comes to. -/
theorem collects_recordAll {c : Constituent} {ds : List Derivation}
    (h : Collects ds c.derivations.toList) (es : List Derivation) :
    Collects (ds ++ es) (c.recordAll es).derivations.toList := by
  induction es generalizing c ds with
  | nil => simpa [recordAll] using h
  | cons e es ih =>
      have hnext := ih (collects_record h e)
      rwa [List.append_assoc] at hnext

/-- A derivation leaves those before it alone that have other keys. -/
theorem record_apart {c : Constituent} {old new ds : List Derivation}
    {d : Derivation} (hc : c.derivations.toList = old ++ new)
    (hnodup : (c.derivations.toList.map Derivation.key).Nodup)
    (h : Collects ds new) (hd : d.key ∉ old.map Derivation.key) :
    ∃ new', (c.record d).1.derivations.toList = old ++ new'
      ∧ Collects (ds ++ [d]) new' := by
  have hkeys : d.key ∈ c.derivations.toList.map Derivation.key
      ↔ d.key ∈ new.map Derivation.key := by
    rw [hc, List.map_append, List.mem_append, or_iff_right hd]
  by_cases hmem : d.key ∈ new.map Derivation.key
  · obtain ⟨es, hrec, hes⟩ := record_old hnodup (hkeys.2 hmem)
    have hsame : old.map (fun e =>
        if e.key = d.key then e.lower d.cost else e) = old := by
      conv_rhs => rw [← List.map_id old]
      refine List.map_congr_left fun e he => if_neg fun hkey => hd ?_
      rw [← hkey]
      exact List.mem_map_of_mem he
    refine ⟨_, ?_, h.concat_old hmem⟩
    rw [hrec, hes, hc, List.map_append, hsame]
  · refine ⟨new ++ [d], ?_, h.concat_new hmem⟩
    rw [record_new (mt hkeys.1 hmem)]
    show (c.derivations.push d).toList = _
    rw [Array.toList_push, hc, List.append_assoc]

/-- Derivations leave those before them alone that have other keys. -/
theorem recordAll_apart {c : Constituent} {old new before ds : List Derivation}
    (hbefore : Collects before c.derivations.toList)
    (hc : c.derivations.toList = old ++ new) (h : Collects ds new)
    {es : List Derivation} (hes : ∀ e ∈ es, e.key ∉ old.map Derivation.key) :
    ∃ new', (c.recordAll es).derivations.toList = old ++ new'
      ∧ Collects (ds ++ es) new' := by
  induction es generalizing c before ds new with
  | nil => exact ⟨new, hc, by rwa [List.append_nil]⟩
  | cons e es ih =>
      rw [List.forall_mem_cons] at hes
      obtain ⟨new', hc', h'⟩ := record_apart hc hbefore.nodup h hes.1
      obtain ⟨new'', hc'', h''⟩ :=
        ih (collects_record hbefore e) hc' h' hes.2
      rw [List.append_assoc] at h''
      exact ⟨new'', hc'', h''⟩

end Constituent

end LatticeParsing
