/-
What calls make of a forest.

A forest is changed by two kinds of calls, which make a constituent or record
a derivation of one. They may come in any order and with any arguments. What
a call can do to a sound forest is said once (`ForestCall.run_cases`): nothing,
list a constituent without derivations, or record a derivation of a
constituent that there is. Two relations are kept by all three:

- a forest that is extended keeps its constituents under their numbers, and
  their derivations at the front (`Forest.Extends`);
- the derivations of every constituent are those that it was given since it
  was made, without repetition (`Forest.Holds`).

Both are carried through the calls by induction on them.
-/
import LatticeParsing.Proofs.Chart.ForestCells
import Mathlib.Algebra.BigOperators.Group.List.Basic

namespace LatticeParsing

-- ================================================================ calls

/-- A call that changes a forest. -/
inductive ForestCall where
  | ensure (i j : Nat) (lhs : Symbol)
  | record (id : Nat) (d : Derivation)

namespace ForestCall

/-- The forest after a call. -/
def run (f : Forest) : ForestCall → Forest
  | ensure i j lhs =>
    match f.ensure? i j lhs with
    | none => f
    | some (f, _, _) => f
  | record id d => (f.record id d).1

/-- What a call passes to constituent `id`, if that is there. -/
def given (f : Forest) (id : Nat) : ForestCall → List Derivation
  | ensure .. => []
  | record k d => if k = id ∧ id < f.constituents.size then [d] else []

/-- What calls pass to constituent `id` since it was made, in order. -/
def givenBy (id : Nat) (f : Forest) : List ForestCall → List Derivation
  | [] => []
  | call :: calls => call.given f id ++ givenBy id (call.run f) calls

end ForestCall

/-- The forest that calls make of one without constituents. -/
def Forest.ofCalls (n : Nat) (calls : List ForestCall) : Forest :=
  calls.foldl ForestCall.run (.empty n)

-- ========================================================== derivations

namespace Constituent

variable {c : Constituent} {d : Derivation} {ds : List Derivation}

/-- The keys of the derivations, in order. -/
def keys (c : Constituent) : List (RuleId × List Nat) :=
  c.derivations.toList.map Derivation.key

/-- The derivations without their costs, in order. -/
def applications (c : Constituent) : List (ListedRule × List Nat) :=
  c.derivations.toList.map fun d => (d.rule, d.antecedents)

theorem keys_eq (c : Constituent) :
    c.keys = c.applications.map fun a => (a.1.id, a.2) := by
  unfold keys applications
  rw [List.map_map]
  rfl

theorem record_isNew (h : c.keys.Nodup) :
    (c.record d).2 = true ↔ d.key ∉ c.keys := by
  by_cases hd : d.key ∈ c.keys
  · obtain ⟨es, hrec, -⟩ := record_old h hd
    simp [hrec, hd]
  · simp [record_new hd, hd]

/-- A derivation with a new key comes last, and others stay where they
are. -/
theorem applications_record (h : c.keys.Nodup) (d : Derivation) :
    (c.record d).1.applications = c.applications
      ++ if (c.record d).2 then [(d.rule, d.antecedents)] else [] := by
  by_cases hd : d.key ∈ c.keys
  · obtain ⟨es, hrec, hes⟩ := record_old h hd
    unfold applications
    rw [hrec]
    simp only [Bool.false_eq_true, if_false, List.append_nil]
    rw [hes, List.map_map]
    refine List.map_congr_left fun e _ => ?_
    simp only [Function.comp]
    split <;> rfl
  · rw [record_new hd]
    simp [applications]

theorem keys_record (h : c.keys.Nodup) (d : Derivation) :
    (c.record d).1.keys
      = c.keys ++ if (c.record d).2 then [d.key] else [] := by
  rw [keys_eq, applications_record h, List.map_append, ← keys_eq]
  split <;> rfl

theorem size_record (c : Constituent) (d : Derivation) :
    (c.record d).1.derivations.size
      = c.derivations.size + if (c.record d).2 then 1 else 0 := by
  unfold record
  split
  · exact Array.size_modify
  · exact Array.size_push ..

/-- Recording one derivation more appends its key unless it has been
given. -/
theorem keys_record_eraseDups (h : c.keys.Nodup)
    (hkeys : c.keys = (ds.map Derivation.key).eraseDups) (d : Derivation) :
    (c.record d).1.keys = ((ds ++ [d]).map Derivation.key).eraseDups := by
  have hmem : d.key ∈ c.keys ↔ d.key ∈ ds.map Derivation.key := by
    rw [hkeys, List.mem_eraseDups]
  rw [keys_record h, List.map_append, List.eraseDups_append, ← hkeys,
    List.map_singleton]
  congr 1
  by_cases hd : d.key ∈ ds.map Derivation.key
  · have hold := mt (record_isNew h).1 (not_not_intro (hmem.2 hd))
    rw [if_neg hold, List.removeAll, List.filter_singleton,
      List.elem_iff.2 hd]
    rfl
  · rw [if_pos ((record_isNew h).2 (mt hmem.1 hd)), List.removeAll,
      List.filter_singleton, Bool.eq_false_iff.2 (mt List.elem_iff.1 hd)]
    rfl

end Constituent

namespace Forest

variable {f f' f'' : Forest} {i j id : Nat} {lhs : Symbol} {d : Derivation}
  {c : Constituent}

-- ============================================================ extension

/-- The forest `f'` has all that `f` has: the cells list what they listed,
and constituents keep their numbers, spans, left-hand sides and derivations,
to which others may have been appended and whose costs alone may change. -/
structure Extends (f f' : Forest) : Prop where
  max_eq : f'.cells.max = f.cells.max
  listed : ∀ {i j : Nat} {e : Symbol × Nat}, e ∈ f.cellAt i j →
    e ∈ f'.cellAt i j
  constituent : ∀ {id : Nat} {c : Constituent}, f.constituents[id]? = some c →
    ∃ c', f'.constituents[id]? = some c' ∧ c'.lhs = c.lhs
      ∧ c'.start = c.start ∧ c'.stop = c.stop
      ∧ c.applications <+: c'.applications

namespace Extends

theorem refl (f : Forest) : f.Extends f :=
  ⟨rfl, id, fun hc => ⟨_, hc, rfl, rfl, rfl, List.prefix_refl _⟩⟩

theorem trans (h : f.Extends f') (h' : f'.Extends f'') : f.Extends f'' where
  max_eq := h'.max_eq.trans h.max_eq
  listed := fun he => h'.listed (h.listed he)
  constituent := by
    intro id c hc
    obtain ⟨c', hc', hlhs, hstart, hstop, happs⟩ := h.constituent hc
    obtain ⟨c'', hc'', hlhs', hstart', hstop', happs'⟩ := h'.constituent hc'
    exact ⟨c'', hc'', hlhs'.trans hlhs, hstart'.trans hstart,
      hstop'.trans hstop, happs.trans happs'⟩

end Extends

-- ============================================================= contents

/-- A forest holds what its constituents were given, `given id` being what
constituent `id` was: every key once, in the order in which it first came,
at the least of the costs that came with it. -/
structure Holds (given : Nat → List Derivation) (f : Forest) : Prop where
  sound : f.Sound
  collects : ∀ {id : Nat} {c : Constituent}, f.constituents[id]? = some c →
    Collects (given id) c.derivations.toList
  keys : ∀ {id : Nat} {c : Constituent}, f.constituents[id]? = some c →
    c.keys = ((given id).map Derivation.key).eraseDups
  /-- Nothing is given to constituents before they are made. -/
  none_given : ∀ {id : Nat}, f.constituents.size ≤ id → given id = []
  count : f.derivationCount
    = (f.constituents.toList.map (·.derivations.size)).sum

theorem holds_empty (n : Nat) : (empty n).Holds fun _ => [] where
  sound := sound_empty n
  collects := by simp [empty]
  keys := by simp [empty]
  none_given := fun _ => rfl
  count := rfl

-- =============================================================== steps

/-- What a call does to a sound forest: nothing, as there is nothing to make
and nothing to record for, or it lists a constituent without derivations, or
it records a derivation of a constituent that there is. -/
theorem Sound.run_cases (h : f.Sound) (call : ForestCall) :
    (call.run f = f ∧ ∀ id, call.given f id = [])
      ∨ (∃ i j lhs, call = .ensure i j lhs ∧ i ≤ j ∧ j ≤ f.cells.max
          ∧ (∀ k, (lhs, k) ∉ f.cellAt i j)
          ∧ call.run f = f.listNew ⟨f.constituents.size, lhs, i, j, #[]⟩
              f.derivationCount)
      ∨ ∃ id d c, call = .record id d ∧ f.constituents[id]? = some c
          ∧ call.run f = f.replace id (c.record d).1
              (f.derivationCount + if (c.record d).2 then 1 else 0) := by
  cases call with
  | ensure i j lhs =>
      by_cases hspan : i ≤ j ∧ j ≤ f.cells.max
      · by_cases hlisted : ∃ id, (lhs, id) ∈ f.cellAt i j
        · obtain ⟨id, hid⟩ := hlisted
          refine Or.inl ⟨?_, fun _ => rfl⟩
          simp only [ForestCall.run, h.ensure?_of_mem hid]
        · have hnew : ∀ k, (lhs, k) ∉ f.cellAt i j :=
            fun k hk => hlisted ⟨k, hk⟩
          refine Or.inr (Or.inl ⟨i, j, lhs, rfl, hspan.1, hspan.2, hnew, ?_⟩)
          simp only [ForestCall.run, ensure?_of_not_mem hspan.1 hspan.2 hnew]
      · refine Or.inl ⟨?_, fun _ => rfl⟩
        simp only [ForestCall.run, ensure?_eq_none.2 hspan]
  | record id d =>
      cases hc : f.constituents[id]? with
      | none =>
          have hid := Array.getElem?_eq_none_iff.1 hc
          refine Or.inl ⟨?_, fun k => if_neg fun hk => ?_⟩
          · simp only [ForestCall.run, record_of_none hc]
          · obtain ⟨rfl, hlt⟩ := hk
            exact absurd hlt (Nat.not_lt.2 hid)
      | some c =>
          refine Or.inr (Or.inr ⟨id, d, c, rfl, hc, ?_⟩)
          simp only [ForestCall.run, record_of_some hc]

theorem extends_listNew (hspan : c.start ≤ c.stop)
    (hmax : c.stop ≤ f.cells.max) (count : Nat) :
    f.Extends (f.listNew c count) where
  max_eq := Triangle.max_set ..
  listed := by
    intro i j e he
    rw [cellAt_listNew f c count i j hspan hmax]
    split
    case isTrue => exact Cell.mem_insert.2 (Or.inr he)
    case isFalse => exact he
  constituent := by
    intro id c' hc'
    have hid := (Array.getElem?_eq_some_iff.1 hc').1
    rw [getElem?_listNew, if_neg (Nat.ne_of_lt hid)]
    exact ⟨c', hc', rfl, rfl, rfl, List.prefix_refl _⟩

theorem extends_replace (hc : f.constituents[id]? = some c)
    (hkeys : c.keys.Nodup) (d : Derivation) (count : Nat) :
    f.Extends (f.replace id (c.record d).1 count) where
  max_eq := rfl
  listed := fun he => he
  constituent := by
    intro k c' hc'
    rw [getElem?_replace f count k (Array.getElem?_eq_some_iff.1 hc).1]
    by_cases hk : k = id
    · subst hk
      rw [hc] at hc'
      injection hc' with hc'
      subst hc'
      refine ⟨_, if_pos rfl, by simp, by simp, by simp, ?_⟩
      rw [Constituent.applications_record hkeys]
      exact List.prefix_append ..
    · exact ⟨c', by rw [if_neg hk, hc'], rfl, rfl, rfl, List.prefix_refl _⟩

/-- Replacing an element by one that counts `n` more adds `n` to a sum. -/
theorem sum_map_set {α : Type} (size : α → Nat) {n k : Nat} {x y : α}
    {xs : List α} (hx : xs[k]? = some x) (hy : size y = size x + n) :
    ((xs.set k y).map size).sum = (xs.map size).sum + n := by
  induction xs generalizing k with
  | nil => simp at hx
  | cons z xs ih =>
      cases k with
      | zero =>
          rw [List.getElem?_cons_zero, Option.some.injEq] at hx
          subst hx
          simp only [List.set_cons_zero, List.map_cons, List.sum_cons, hy]
          omega
      | succ k =>
          simp only [List.set_cons_succ, List.map_cons, List.sum_cons,
            ih (by simpa using hx), Nat.add_assoc]

namespace Holds

variable {given : Nat → List Derivation}

theorem nodup_keys (h : f.Holds given) (hc : f.constituents[id]? = some c) :
    c.keys.Nodup :=
  (h.collects hc).nodup

/-- A constituent that has been made was given nothing. -/
theorem listNew (h : f.Holds given) (hij : i ≤ j) (hj : j ≤ f.cells.max)
    (hnew : ∀ k, (lhs, k) ∉ f.cellAt i j) :
    (f.listNew ⟨f.constituents.size, lhs, i, j, #[]⟩
      f.derivationCount).Holds given := by
  have hold : ∀ {k c}, (f.listNew ⟨f.constituents.size, lhs, i, j, #[]⟩
        f.derivationCount).constituents[k]? = some c →
      f.constituents[k]? = some c
        ∨ c = ⟨f.constituents.size, lhs, i, j, #[]⟩ ∧ given k = [] := by
    intro k c hc
    rw [getElem?_listNew] at hc
    split at hc
    case isTrue hk =>
      injection hc with hc
      exact Or.inr ⟨hc.symm, h.none_given (Nat.le_of_eq hk.symm)⟩
    case isFalse => exact Or.inl hc
  refine ⟨h.sound.listNew rfl hij hj hnew _, ?_, ?_, ?_, ?_⟩
  · intro k c hc
    rcases hold hc with hc | ⟨rfl, hgiven⟩
    · exact h.collects hc
    · rw [hgiven]
      exact .nil
  · intro k c hc
    rcases hold hc with hc | ⟨rfl, hgiven⟩
    · exact h.keys hc
    · rw [hgiven]
      rfl
  · intro k hk
    refine h.none_given (Nat.le_trans (Nat.le_succ _) ?_)
    simpa [Forest.listNew] using hk
  · simp [Forest.listNew, h.count]

/-- A derivation that is recorded is given to its constituent alone. -/
theorem record (h : f.Holds given) (hc : f.constituents[id]? = some c)
    (d : Derivation) :
    (f.replace id (c.record d).1
        (f.derivationCount + if (c.record d).2 then 1 else 0)).Holds
      fun k => given k ++ if k = id then [d] else [] := by
  have hid := (Array.getElem?_eq_some_iff.1 hc).1
  refine ⟨h.sound.replace hc (by simp) (by simp) (by simp) (by simp) _,
    ?_, ?_, ?_, ?_⟩
  · intro k c' hc'
    rw [getElem?_replace f _ k hid] at hc'
    split at hc'
    case isTrue hk =>
      injection hc' with hc'
      subst hc' hk
      rw [if_pos rfl]
      exact Constituent.collects_record (h.collects hc) d
    case isFalse hk =>
      rw [if_neg hk, List.append_nil]
      exact h.collects hc'
  · intro k c' hc'
    rw [getElem?_replace f _ k hid] at hc'
    split at hc'
    case isTrue hk =>
      injection hc' with hc'
      subst hc' hk
      rw [if_pos rfl]
      exact Constituent.keys_record_eraseDups (h.nodup_keys hc) (h.keys hc) d
    case isFalse hk =>
      rw [if_neg hk, List.append_nil]
      exact h.keys hc'
  · intro k hk
    have hk : f.constituents.size ≤ k := by
      simpa [Forest.replace] using hk
    rw [if_neg (Nat.ne_of_gt (Nat.lt_of_lt_of_le hid hk)), List.append_nil]
    exact h.none_given hk
  · show _ = ((f.constituents.setIfInBounds id _).toList.map _).sum
    have hsize := Constituent.size_record c d
    have hget : f.constituents.toList[id]? = some c := by simpa using hc
    rw [Array.toList_setIfInBounds,
      sum_map_set (fun c : Constituent => c.derivations.size) hget hsize,
      ← h.count]
    rfl

/-- Any call leaves a forest that extends the one before and holds what the
call gives in addition. -/
theorem run (h : f.Holds given) (call : ForestCall) :
    f.Extends (call.run f)
      ∧ (call.run f).Holds fun id => given id ++ call.given f id := by
  obtain ⟨hrun, hnone⟩ | ⟨i, j, lhs, rfl, hij, hj, hnew, hrun⟩
    | ⟨id, d, c, rfl, hc, hrun⟩ := h.sound.run_cases call
  · rw [hrun]
    simp only [hnone, List.append_nil]
    exact ⟨.refl f, h⟩
  · rw [hrun]
    simp only [ForestCall.given, List.append_nil]
    exact ⟨extends_listNew hij hj _, h.listNew hij hj hnew⟩
  · have hgiven : ∀ k, ForestCall.given f k (.record id d)
        = if k = id then [d] else [] := by
      intro k
      have hid := (Array.getElem?_eq_some_iff.1 hc).1
      refine if_congr ⟨fun hk => hk.1.symm, fun hk => ?_⟩ rfl rfl
      exact ⟨hk.symm, hk.symm ▸ hid⟩
    rw [hrun]
    simp only [hgiven]
    exact ⟨extends_replace hc (h.nodup_keys hc) d _, h.record hc d⟩

/-- Any calls do. -/
theorem foldl_run (h : f.Holds given) (calls : List ForestCall) :
    f.Extends (calls.foldl ForestCall.run f)
      ∧ (calls.foldl ForestCall.run f).Holds fun id =>
          given id ++ ForestCall.givenBy id f calls := by
  induction calls generalizing f given with
  | nil =>
      simp only [ForestCall.givenBy, List.append_nil]
      exact ⟨.refl f, h⟩
  | cons call calls ih =>
      obtain ⟨hextends, hholds⟩ := h.run call
      obtain ⟨hextends', hholds'⟩ := ih hholds
      simp only [List.append_assoc] at hholds'
      exact ⟨hextends.trans hextends', hholds'⟩

end Holds

-- ============================================================= any calls

theorem holds_ofCalls (n : Nat) (calls : List ForestCall) :
    (ofCalls n calls).Holds fun id =>
      ForestCall.givenBy id (.empty n) calls := by
  unfold ofCalls
  simpa using ((holds_empty n).foldl_run calls).2

/-- Further calls extend the forest. -/
theorem extends_ofCalls (n : Nat) (calls more : List ForestCall) :
    (ofCalls n calls).Extends (ofCalls n (calls ++ more)) := by
  unfold ofCalls
  rw [List.foldl_append]
  exact ((holds_ofCalls n calls).foldl_run more).1

theorem max_ofCalls (n : Nat) (calls : List ForestCall) :
    (ofCalls n calls).cells.max = n :=
  (extends_ofCalls n [] calls).max_eq

/-- The answer of a call that makes a constituent or finds it. -/
theorem Holds.answer_ensure? {given : Nat → List Derivation} (h : f.Holds given)
    {f' : Forest} {made : Bool}
    (hensure : f.ensure? i j lhs = some (f', id, made)) :
    f'.find? i j lhs = some id
      ∧ (made = true ↔ f.find? i j lhs = none)
      ∧ f'.constituents.size = f.constituents.size + (if made then 1 else 0)
      ∧ (made = true → id = f.constituents.size) ∧ (made = false → f' = f) := by
  have hspan : i ≤ j ∧ j ≤ f.cells.max := by
    by_contra hspan
    rw [ensure?_eq_none.2 hspan] at hensure
    cases hensure
  by_cases hlisted : ∃ k, (lhs, k) ∈ f.cellAt i j
  · obtain ⟨k, hk⟩ := hlisted
    rw [h.sound.ensure?_of_mem hk] at hensure
    cases hensure
    have hfind := h.sound.find?_eq_some.2 hk
    simp [hfind]
  · have hnew : ∀ k, (lhs, k) ∉ f.cellAt i j := fun k hk => hlisted ⟨k, hk⟩
    rw [ensure?_of_not_mem hspan.1 hspan.2 hnew] at hensure
    cases hensure
    refine ⟨?_, ?_, ?_, fun _ => rfl, fun h => nomatch h⟩
    · rw [(h.sound.listNew rfl hspan.1 hspan.2 hnew _).find?_eq_some,
        cellAt_listNew _ _ _ _ _ hspan.1 hspan.2, if_pos ⟨rfl, rfl⟩,
        Cell.mem_insert]
      exact Or.inl rfl
    · exact iff_of_true rfl (Cell.find?_eq_none.2 hnew)
    · simp [Forest.listNew]

/-- The answer of a call that records a derivation. -/
theorem Holds.answer_record {given : Nat → List Derivation}
    (h : f.Holds given) (id : Nat) (d : Derivation) :
    ((f.record id d).2 = true
        ↔ id < f.constituents.size
          ∧ d.key ∉ (given id).map Derivation.key)
      ∧ (f.constituents.size ≤ id → (f.record id d).1 = f) := by
  cases hc : f.constituents[id]? with
  | none =>
      have hid := Array.getElem?_eq_none_iff.1 hc
      rw [record_of_none hc]
      exact ⟨by simp [Nat.not_lt.2 hid], fun _ => rfl⟩
  | some c =>
      have hid := (Array.getElem?_eq_some_iff.1 hc).1
      refine ⟨?_, fun hle => absurd hid (Nat.not_lt.2 hle)⟩
      have hnew := Constituent.record_isNew (d := d) (h.nodup_keys hc)
      rw [h.keys hc, List.mem_eraseDups] at hnew
      rw [record_of_some hc, hnew, and_iff_right hid]

/-- Constituents differ in span or left-hand side. -/
theorem Sound.eq_of_span (h : f.Sound) {id' : Nat} {c' : Constituent}
    (hc : f.constituents[id]? = some c)
    (hc' : f.constituents[id']? = some c') (hstart : c.start = c'.start)
    (hstop : c.stop = c'.stop) (hlhs : c.lhs = c'.lhs) : id = id' := by
  have hid := h.find?_eq_some.2 (h.mem_of_constituent hc)
  have hid' := h.find?_eq_some.2 (h.mem_of_constituent hc')
  rw [hstart, hstop, hlhs, hid'] at hid
  injection hid with hid
  exact hid.symm

end Forest

end LatticeParsing
