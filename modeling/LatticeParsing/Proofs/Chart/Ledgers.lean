/-
Looking derivations up.

A ledger does what its forest does, but it looks a derivation up in an index
(`Ledger.Follows`). The invariant: the index tells of every derivation of the
forest at which place it stands, and of no other (`seen_eq`). The place of a
derivation never changes, since derivations are only added at the end and
lowered in cost, so recording keeps the invariant where the derivation is new
(`record?_new`) and where it is not (`record?_old`), and never finds a place
at which none stands.

A run of any calls follows by induction on them (`follows_foldlM`), and the
main statement says what has come of it: cells, constituents and index agree,
and hold what was recorded.
-/
import LatticeParsing.Chart.Ledger
import LatticeParsing.Proofs.Chart.ForestCalls
import LatticeParsing.Proofs.Machine.Words

namespace LatticeParsing

open Machine (Returns returns_foldlM)

-- ============================================================== positions

/-- Where the derivation of a constituent stands that has a key. -/
def Forest.position? (f : Forest) (id : Nat) (key : RuleId × List Nat) :
    Option Nat :=
  f.constituents[id]?.bind fun c => c.derivations.findIdx? (·.key == key)

namespace Ledger

/-- Whether a ledger keeps a forest: it has it, and its index tells where the
derivations stand. -/
structure Follows (r : Ledger) (f : Forest) : Prop where
  forest_eq : r.forest = f
  seen_eq : ∀ k : DerivationKey,
    r.seen[k]? = f.position? k.constituent (k.rule, k.antecedents)
  size_eq : r.seen.size = f.derivationCount

variable {i j id k : Nat} {lhs : Symbol} {r : Ledger} {f f' : Forest}
  {d : Derivation} {key : RuleId × List Nat}

/-- A derivation is looked for by its key. -/
theorem findIdx?_sameAs (ds : Array Derivation) (d : Derivation) :
    ds.findIdx? (·.sameAs d) = ds.findIdx? (·.key == d.key) := rfl

/-- Lowering a cost changes no key. -/
theorem findIdx?_lower (ds : Array Derivation) (k : Nat) (c : Cost)
    (key : RuleId × List Nat) :
    (ds.modify k (·.lower c)).findIdx? (·.key == key)
      = ds.findIdx? (·.key == key) := by
  have hkeys : (ds.modify k (·.lower c)).map Derivation.key
      = ds.map Derivation.key := by
    refine Array.ext_getElem? fun m => ?_
    rw [Array.getElem?_map, Array.getElem?_modify, Array.getElem?_map]
    split
    · cases ds[m]? <;> rfl
    · rfl
  have hmap : ∀ es : Array Derivation, es.findIdx? (·.key == key)
      = (es.map Derivation.key).findIdx? (· == key) := fun es => by
    rw [Array.findIdx?_map]
    rfl
  rw [hmap, hkeys, ← hmap]

/-- Where a derivation stands after the derivations of a constituent have
changed. -/
theorem position?_set {c : Constituent} {count : Nat}
    (h : f.constituents[id]? = some c) (ds : Array Derivation) (m : Nat)
    (key : RuleId × List Nat) :
    Forest.position? { f with
      constituents :=
        f.constituents.setIfInBounds id { c with derivations := ds }
      derivationCount := count } m key
      = if m = id then ds.findIdx? (·.key == key)
        else f.position? m key := by
  obtain ⟨hlt, -⟩ := Array.getElem?_eq_some_iff.1 h
  unfold Forest.position?
  simp only [Array.getElem?_setIfInBounds]
  by_cases hm : m = id
  · subst hm
    simp [hlt]
  · rw [if_neg (Ne.symm hm), if_neg hm]

/-- A new constituent has no derivations. -/
theorem position?_push {cells : Triangle Cell} {c : Constituent}
    {count : Nat} (hc : c.derivations = #[]) (id : Nat)
    (key : RuleId × List Nat) :
    Forest.position? ⟨cells, f.constituents.push c, count⟩ id key
      = f.position? id key := by
  unfold Forest.position?
  simp only [Array.getElem?_push]
  split
  case isTrue hid =>
    subst hid
    simp [hc]
  case isFalse => rfl

/-- The index tells just where a derivation stands that has the key. -/
theorem position?_eq_some (hkeys : ∀ {id : Nat} {c : Constituent},
      f.constituents[id]? = some c → c.keys.Nodup) :
    f.position? id key = some k
      ↔ ∃ c d, f.constituents[id]? = some c ∧ c.derivations[k]? = some d
          ∧ d.key = key := by
  unfold Forest.position?
  cases hc : f.constituents[id]? with
  | none => simp
  | some c =>
      simp only [Option.bind_some, Option.some.injEq, exists_and_left,
        exists_eq_left']
      have hnodup := hkeys hc
      unfold Constituent.keys at hnodup
      rw [Array.findIdx?_eq_some_iff_getElem]
      constructor
      · rintro ⟨hlt, hkey, -⟩
        exact ⟨_, Array.getElem?_eq_getElem hlt, beq_iff_eq.1 hkey⟩
      · rintro ⟨d, hd, rfl⟩
        obtain ⟨hlt, rfl⟩ := Array.getElem?_eq_some_iff.1 hd
        refine ⟨hlt, beq_self_eq_true _, fun m hm heq => Nat.ne_of_lt hm ?_⟩
        -- an earlier derivation with the key would repeat it
        have hm' : m < (c.derivations.toList.map Derivation.key).length := by
          simpa using Nat.lt_trans hm hlt
        refine (List.getElem?_inj hm' hnodup).1 ?_
        simp [hlt, Nat.lt_trans hm hlt, beq_iff_eq.1 heq]

-- ================================================================= steps

namespace Follows

theorem empty (n : Nat) : (Ledger.empty n).Follows (.empty n) where
  forest_eq := rfl
  seen_eq := fun k => by simp [Ledger.empty, Forest.position?, Forest.empty]
  size_eq := by simp [Ledger.empty, Forest.empty]

/-- What a ledger answers to a call that makes a constituent, its forest
answers. -/
theorem ensure?_eq (h : r.Follows f) (i j : Nat) (lhs : Symbol) :
    r.ensure? i j lhs = (f.ensure? i j lhs).map fun (f, id, made) =>
      (⟨f, r.seen⟩, id, made) := by
  unfold Ledger.ensure?
  rw [h.forest_eq]

/-- A constituent that is made has no derivations to be told of. -/
theorem ensure? (h : r.Follows f) {made : Bool}
    (hsome : f.ensure? i j lhs = some (f', id, made)) :
    Follows ⟨f', r.seen⟩ f' := by
  unfold Forest.ensure? at hsome
  split at hsome
  case h_1 => cases hsome
  case h_2 cell hcell =>
    split at hsome
    case h_1 =>
      cases hsome
      exact ⟨rfl, h.seen_eq, h.size_eq⟩
    case h_2 =>
      cases hsome
      exact ⟨rfl, fun k => (h.seen_eq k).trans (position?_push rfl ..).symm,
        h.size_eq⟩

/-- The index tells where the derivations of a constituent stand. -/
theorem getElem?_seen (h : r.Follows f) {c : Constituent}
    (hc : f.constituents[id]? = some c) (d : Derivation) :
    r.seen[(⟨id, d.rule.id, d.antecedents⟩ : DerivationKey)]?
      = c.derivations.findIdx? (·.key == d.key) := by
  rw [h.seen_eq]
  unfold Forest.position?
  rw [hc]
  rfl

/-- A derivation is lowered in cost where the index says that it stands. -/
theorem record?_old (h : r.Follows f) {c : Constituent}
    (hc : f.constituents[id]? = some c)
    (hk : c.derivations.findIdx? (·.key == d.key) = some k) :
    ∃ r', r.record? id d = some (r', (f.record id d).2)
      ∧ r'.Follows (f.record id d).1 := by
  have hlook := (h.getElem?_seen hc d).trans hk
  obtain ⟨rfl, hseen, hsize⟩ := h
  obtain ⟨hlt, -⟩ := Array.findIdx?_eq_some_iff_getElem.1 hk
  let ds := c.derivations.modify k (·.lower d.cost)
  have hrecord : c.record d = ({ c with derivations := ds }, false) := by
    unfold Constituent.record
    rw [findIdx?_sameAs, hk]
    rfl
  unfold Ledger.record? Forest.record
  simp only [hc, hlook, hrecord, if_pos hlt]
  refine ⟨_, rfl, rfl, fun m => ?_, hsize⟩
  rw [position?_set hc, findIdx?_lower, hseen]
  split
  case isFalse => rfl
  case isTrue hm =>
    unfold Forest.position?
    rw [hm, hc]
    rfl

/-- A new derivation comes last, and the index tells so. -/
theorem record?_new (h : r.Follows f) {c : Constituent}
    (hc : f.constituents[id]? = some c)
    (hk : c.derivations.findIdx? (·.key == d.key) = none) :
    ∃ r', r.record? id d = some (r', (f.record id d).2)
      ∧ r'.Follows (f.record id d).1 := by
  have hlook := (h.getElem?_seen hc d).trans hk
  obtain ⟨rfl, hseen, hsize⟩ := h
  have hrecord : c.record d
      = ({ c with derivations := c.derivations.push d }, true) := by
    unfold Constituent.record
    rw [findIdx?_sameAs, hk]
  unfold Ledger.record? Forest.record
  simp only [hc, hlook, hrecord]
  refine ⟨_, rfl, rfl, fun m => ?_, ?_⟩
  · have hm : ((⟨id, d.rule.id, d.antecedents⟩ : DerivationKey) == m) = true
        ↔ m.constituent = id ∧ d.key = (m.rule, m.antecedents) := by
      obtain ⟨n, rule, antecedents⟩ := m
      simp only [beq_iff_eq, DerivationKey.mk.injEq, Derivation.key,
        Prod.mk.injEq, @eq_comm _ n]
    have hold := hseen m
    rw [position?_set hc, Array.findIdx?_push, Std.HashMap.getElem?_insert]
    simp only [hm, beq_iff_eq]
    by_cases hid : m.constituent = id
    · unfold Forest.position? at hold
      rw [hid, hc] at hold
      rw [if_pos hid]
      by_cases hkey : d.key = (m.rule, m.antecedents)
      · rw [if_pos ⟨hid, hkey⟩, if_pos hkey, ← hkey, hk]
        rfl
      · rw [if_neg fun h => hkey h.2, if_neg hkey, hold]
        simp
    · rw [if_neg fun h => hid h.1, if_neg hid, hold]
  · have hnew : (⟨id, d.rule.id, d.antecedents⟩ : DerivationKey)
        ∉ r.seen := by
      rw [Std.HashMap.mem_iff_isSome_getElem?, hlook]
      exact Bool.false_ne_true
    rw [Std.HashMap.size_insert, if_neg hnew, hsize]
    rfl

/-- A ledger records what its forest records, gives the same answer, and never
stops. -/
theorem record? (h : r.Follows f) (id : Nat) (d : Derivation) :
    ∃ r', r.record? id d = some (r', (f.record id d).2)
      ∧ r'.Follows (f.record id d).1 := by
  cases hc : f.constituents[id]? with
  | none =>
      refine ⟨r, ?_, ?_⟩
      · unfold Ledger.record? Forest.record
        rw [h.forest_eq, hc]
      · rwa [Forest.record_of_none hc]
  | some c =>
      cases hk : c.derivations.findIdx? (·.key == d.key) with
      | some k => exact h.record?_old hc hk
      | none => exact h.record?_new hc hk

end Follows

-- ================================================================== runs

/-- The ledger after a call. -/
def enter? (r : Ledger) : ForestCall → Option Ledger
  | .ensure i j lhs =>
    match r.ensure? i j lhs with
    | none => some r
    | some (r, _, _) => some r
  | .record id d => (r.record? id d).map (·.1)

/-- The ledger that calls make of one without constituents. -/
def ofCalls? (n : Nat) (calls : List ForestCall) : Option Ledger :=
  calls.foldlM enter? (.empty n)

/-- A ledger does what its forest does. -/
theorem Follows.enter? (h : r.Follows f) (call : ForestCall) :
    Returns (r.enter? call) (·.Follows (call.run f)) := by
  cases call with
  | ensure i j lhs =>
      simp only [Ledger.enter?, ForestCall.run, h.ensure?_eq]
      cases hens : f.ensure? i j lhs with
      | none => exact ⟨r, rfl, h⟩
      | some e =>
          obtain ⟨f', id, made⟩ := e
          exact ⟨_, rfl, h.ensure? hens⟩
  | record id d =>
      obtain ⟨r', hrecord, hr'⟩ := h.record? id d
      simp only [Ledger.enter?, hrecord]
      exact ⟨r', rfl, hr'⟩

/-- No calls stop a ledger, and it comes to the forest that they make. -/
theorem follows_ofCalls? (n : Nat) (calls : List ForestCall) :
    Returns (ofCalls? n calls) (·.Follows (.ofCalls n calls)) :=
  returns_foldlM (fun _ _ call _ h => h.enter? call) (.empty n)

/-- A ledger holds just what calls have put into it, whatever they were, and
no calls stop it. The constituent at each place has the number of the place. A
left-hand side is found over a span just if a constituent has both, under the
number of that constituent, so no two constituents agree in span and left-hand
side. Every constituent is listed in the cell of its span and in no other, and
cells ascend by left-hand side.

The derivations of a constituent are those that were given to it since it was
made: each rule with its antecedents once, in the order in which they first
came, at the least of the costs that came with them, in that order. The index
tells of each of them at which place it stands, and of no others. All
derivations are counted.

A further call that makes a constituent answers with the number under which
the left-hand side is found from then on, which is a new one just if it was
not found before; over a span outside the table it has no answer. A
derivation counts as new just if its constituent is there and has not been
given it before. Whatever follows, constituents and derivations stay. -/
theorem keeps_what_was_recorded (n : Nat) (calls : List ForestCall) :
    ∃ r, ofCalls? n calls = some r ∧
      let f := r.forest
      let given := fun id => ForestCall.givenBy id (.empty n) calls
      f = Forest.ofCalls n calls
      ∧ (∀ (id : Nat) (c : Constituent), f.constituents[id]? = some c →
          c.id = id)
      ∧ (∀ i j lhs id, f.find? i j lhs = some id
          ↔ ∃ c, f.constituents[id]? = some c
              ∧ c.lhs = lhs ∧ c.start = i ∧ c.stop = j)
      ∧ (∀ (id id' : Nat) (c c' : Constituent), f.constituents[id]? = some c →
          f.constituents[id']? = some c' → c.start = c'.start →
          c.stop = c'.stop → c.lhs = c'.lhs → id = id')
      ∧ (∀ (id : Nat) (c : Constituent), f.constituents[id]? = some c →
          ∀ i j lhs, (lhs, id) ∈ f.cellAt i j
            ↔ lhs = c.lhs ∧ i = c.start ∧ j = c.stop)
      ∧ (∀ i j, (f.cellAt i j).Pairwise (·.1 < ·.1))
      ∧ (∀ (id : Nat) (c : Constituent), f.constituents[id]? = some c →
          c.keys.Nodup
          ∧ c.keys = ((given id).map Derivation.key).eraseDups
          ∧ ∀ d ∈ c.derivations.toList,
              Cost.leastOf (((given id).filter (·.key = d.key)).map (·.cost))
                = some d.cost)
      ∧ (∀ (key : DerivationKey) (k : Nat), r.seen[key]? = some k
          ↔ ∃ c d, f.constituents[key.constituent]? = some c
              ∧ c.derivations[k]? = some d
              ∧ d.key = (key.rule, key.antecedents))
      ∧ f.derivationCount
          = (f.constituents.toList.map (·.derivations.size)).sum
      ∧ r.seen.size = f.derivationCount
      ∧ (∀ i j lhs, (r.ensure? i j lhs = none ↔ ¬ (i ≤ j ∧ j ≤ n))
          ∧ ∀ r' id made, r.ensure? i j lhs = some (r', id, made) →
              r'.forest.find? i j lhs = some id
              ∧ (made = true ↔ f.find? i j lhs = none)
              ∧ r'.forest.constituents.size
                  = f.constituents.size + (if made then 1 else 0)
              ∧ (made = true → id = f.constituents.size)
              ∧ (made = false → r' = r))
      ∧ (∀ id d, ∃ r' isNew, r.record? id d = some (r', isNew)
          ∧ (isNew = true ↔ id < f.constituents.size
              ∧ d.key ∉ (given id).map Derivation.key)
          ∧ (f.constituents.size ≤ id → r' = r))
      ∧ ∀ more, ∃ r', ofCalls? n (calls ++ more) = some r'
          ∧ f.Extends r'.forest := by
  obtain ⟨r, hrun, hfollows⟩ := follows_ofCalls? n calls
  have h : (Forest.ofCalls n calls).Holds fun id =>
      ForestCall.givenBy id (.empty n) calls := Forest.holds_ofCalls n calls
  refine ⟨r, hrun, ?_⟩
  intro f given
  have hf : f = Forest.ofCalls n calls := hfollows.forest_eq
  rw [← hf] at h hfollows
  have hfind : ∀ i j lhs id, f.find? i j lhs = some id
      ↔ ∃ c, f.constituents[id]? = some c
          ∧ c.lhs = lhs ∧ c.start = i ∧ c.stop = j :=
    fun i j lhs id => h.sound.find?_eq_some.trans h.sound.listed
  refine ⟨hf, fun id c => h.sound.numbered, hfind,
    fun id id' c c' => h.sound.eq_of_span, ?_, h.sound.ascending,
    fun id c hc => ⟨h.nodup_keys hc, h.keys hc, (h.collects hc).cost⟩,
    fun key k => ?_, h.count, hfollows.size_eq, fun i j lhs => ⟨?_, ?_⟩,
    fun id d => ?_, fun more => ?_⟩
  · intro id c hc i j lhs
    rw [h.sound.listed]
    simp [hc, eq_comm]
  · rw [hfollows.seen_eq]
    exact position?_eq_some fun hc => h.nodup_keys hc
  · rw [hfollows.ensure?_eq, Option.map_eq_none_iff, Forest.ensure?_eq_none,
      hf, Forest.max_ofCalls]
  · intro r' id made hensure
    rw [hfollows.ensure?_eq] at hensure
    obtain ⟨⟨f', id', made'⟩, hens, heq⟩ := Option.map_eq_some_iff.1 hensure
    cases heq
    obtain ⟨hnow, hmade, hsize, hnew, hold⟩ := h.answer_ensure? hens
    refine ⟨hnow, hmade, hsize, hnew, fun hfalse => ?_⟩
    rw [hold hfalse]
  · obtain ⟨r', hrecord, hr'⟩ := hfollows.record? id d
    obtain ⟨hnew, hkeep⟩ := h.answer_record id d
    refine ⟨r', _, hrecord, hnew, fun hid => ?_⟩
    unfold record? at hrecord
    rw [hfollows.forest_eq, Array.getElem?_eq_none hid] at hrecord
    exact (Prod.ext_iff.1 (Option.some.inj hrecord)).1.symm
  · obtain ⟨r', hrun', hfollows'⟩ := follows_ofCalls? n (calls ++ more)
    refine ⟨r', hrun', ?_⟩
    rw [hf, hfollows'.forest_eq]
    exact Forest.extends_ofCalls n calls more

end Ledger

end LatticeParsing
