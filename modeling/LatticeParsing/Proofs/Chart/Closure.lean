/-
Closure under rules with a single nonterminal.

The closure works on a queue of constituents over one span. `takenFrom`
lists those that it takes from the queue, in order, and the closure comes to
recording the rules that apply to each of them (`forest_closeFrom`).

The invariant of the loop: what the cell lists is what has been taken and
what still waits in the queue, each once. A constituent more is taken with
every unit of fuel, and the cell never lists more than the completions have
made and the rules have left-hand sides, so the fuel does not run out before
the queue does (`perm_takenFrom`). In the end the cell lists what has been
taken (`closeUnary_taken`): every constituent of the span is taken exactly
once. `Drains` is the loop without fuel; it ends with what `closeUnary`
records.
-/
import LatticeParsing.Proofs.Chart.Completion
import Mathlib.Data.List.Perm.Subperm

namespace LatticeParsing.Parse

open Forest

variable (l : Lattice) (charts : List ChartedGrammar) {i j : Nat}

-- ============================================================= the loop

/-- The constituents that the closure takes from its queue, in order. -/
def takenFrom (i j : Nat) : Nat → List Nat → Forest → List (Symbol × Nat)
  | 0, _, _ => []
  | _ + 1, [], _ => []
  | fuel + 1, id :: queue, f =>
    match f.constituents[id]? with
    | none => takenFrom i j fuel queue f
    | some c =>
      let step := recordAll i j f (unaryCompletions l charts i j c.lhs id)
      (c.lhs, id) :: takenFrom i j fuel (queue ++ step.made) step.forest

/-- The loop without a bound on its rounds: from what has been recorded and a
queue it takes constituents, each of them there, until the queue is empty. -/
inductive Drains (i j : Nat) :
    List Nat → Recorded → List (Symbol × Nat) → Recorded → Prop
  | empty (r : Recorded) : Drains i j [] r [] r
  | take {id : Nat} {queue : List Nat} {r r' : Recorded} {c : Constituent}
      {taken : List (Symbol × Nat)} :
      r.forest.constituents[id]? = some c →
      (let step := recordAll i j r.forest
        (unaryCompletions l charts i j c.lhs id)
      Drains i j (queue ++ step.made)
        ⟨step.forest, r.made ++ step.made, r.derivations + step.derivations⟩
        taken r') →
      Drains i j (id :: queue) r ((c.lhs, id) :: taken) r'

/-- The rules with a single nonterminal that apply to constituents over a
span. -/
def unaryOver (i j : Nat) (es : List (Symbol × Nat)) : List Completion :=
  es.flatMap fun (lhs, id) => unaryCompletions l charts i j lhs id

theorem unaryOver_cons (e : Symbol × Nat) (es : List (Symbol × Nat)) :
    unaryOver l charts i j (e :: es)
      = unaryCompletions l charts i j e.1 e.2 ++ unaryOver l charts i j es :=
  List.flatMap_cons

variable {l charts} in
/-- What stays true when the rules for one constituent are recorded stays true
in the closure. -/
theorem closeFrom_induction {I : Recorded → Prop}
    (htake : ∀ (r : Recorded) (id : Nat) (c : Constituent),
      r.forest.constituents[id]? = some c → I r →
      I ⟨(recordAll i j r.forest
            (unaryCompletions l charts i j c.lhs id)).forest,
          r.made ++ (recordAll i j r.forest
            (unaryCompletions l charts i j c.lhs id)).made,
          r.derivations + (recordAll i j r.forest
            (unaryCompletions l charts i j c.lhs id)).derivations⟩)
    (fuel : Nat) (queue : List Nat) {r : Recorded} (hr : I r) :
    I (closeFrom l charts i j fuel queue r) := by
  induction fuel generalizing queue r with
  | zero => exact hr
  | succ fuel ih =>
      cases queue with
      | nil => exact hr
      | cons id queue =>
          unfold closeFrom
          cases hc : r.forest.constituents[id]? with
          | none => exact ih queue hr
          | some c => exact ih _ (htake r id c hc hr)

/-- The closure records what applies to the constituents that it takes. -/
theorem forest_closeFrom (fuel : Nat) (queue : List Nat) (r : Recorded) :
    (closeFrom l charts i j fuel queue r).forest
      = (recordAll i j r.forest (unaryOver l charts i j
          (takenFrom l charts i j fuel queue r.forest))).forest := by
  induction fuel generalizing queue r with
  | zero => rfl
  | succ fuel ih =>
      cases queue with
      | nil => rfl
      | cons id queue =>
          unfold closeFrom takenFrom
          cases hc : r.forest.constituents[id]? with
          | none => exact ih queue r
          | some c =>
              simp only
              rw [ih, unaryOver_cons, recordAll_append]

-- ================================================================ fuel

/-- A span has no more constituents than it had before and than there are
left-hand sides to record. -/
theorem length_cellAt_le {ds : List Derivation} {made : List Nat}
    {f f' : Forest} (h : Records i j ds made f f') {lhss : List Symbol}
    (hds : ∀ d ∈ ds, d.rule.rule.lhs ∈ lhss) :
    (f'.cellAt i j).length ≤ (f.cellAt i j).length + lhss.length := by
  obtain ⟨es, -, hperm, hes⟩ := h.cell
  have hkeys : ((f'.cellAt i j).map (·.1)).Nodup :=
    List.pairwise_map.2 ((h.sound.ascending i j).imp fun hlt => ne_of_lt hlt)
  have hnodup : (es.map (·.1)).Nodup := by
    have hboth := (hperm.map (·.1)).nodup_iff.1 hkeys
    rw [List.map_append] at hboth
    exact (List.nodup_append.1 hboth).2.1
  have hsub : es.map (·.1) ⊆ lhss := by
    intro s hs
    obtain ⟨e, he, rfl⟩ := List.mem_map.1 hs
    obtain ⟨d, hd, hlhs⟩ := hes e he
    exact hlhs ▸ hds d hd
  have hle := (hnodup.subperm hsub).length_le
  rw [List.length_map] at hle
  rw [hperm.length_eq, List.length_append]
  omega

/-- With enough fuel the closure takes every constituent of the span that it
has not yet seen, once. -/
theorem perm_takenFrom (hij : i ≤ j) (fuel : Nat) (f : Forest)
    (seen queue : List (Symbol × Nat)) (hs : f.Sound) (hj : j ≤ f.cells.max)
    (hcell : (f.cellAt i j).Perm (seen ++ queue))
    (hfuel : ∀ es, ((recordAll i j f (unaryOver l charts i j es)).forest.cellAt
      i j).length < fuel + seen.length) :
    let taken := takenFrom l charts i j fuel (queue.map (·.2)) f
    ((recordAll i j f (unaryOver l charts i j taken)).forest.cellAt i j).Perm
      (seen ++ taken) := by
  induction fuel generalizing f seen queue with
  | zero =>
      -- the fuel is more than the cell can come to hold, so it does not run out
      have hlt := hfuel []
      have hlen := hcell.length_eq
      rw [List.length_append] at hlen
      have hnone : ((recordAll i j f (unaryOver l charts i j [])).forest.cellAt
          i j).length = (f.cellAt i j).length := rfl
      omega
  | succ fuel ih =>
      cases queue with
      | nil => simpa [takenFrom, unaryOver, recordAll] using hcell
      | cons e queue =>
          obtain ⟨lhs, id⟩ := e
          have hmem : (lhs, id) ∈ f.cellAt i j :=
            hcell.mem_iff.2 (List.mem_append_right _ (List.mem_cons_self ..))
          obtain ⟨c, hc, rfl, -, -⟩ := hs.listed.1 hmem
          let ds := unaryCompletions l charts i j c.lhs id
          have hrec := records_recordAll hs hij hj ds
          obtain ⟨es, hmade, hperm, -⟩ := hrec.cell
          have hqueue : queue.map (·.2) ++ (recordAll i j f ds).made
              = (queue ++ es).map (·.2) := by
            rw [hmade, List.map_append]
          -- what is seen and what is queued make up the cell at every step
          have hcell' : ((recordAll i j f ds).forest.cellAt i j).Perm
              ((seen ++ [(c.lhs, id)]) ++ (queue ++ es)) := by
            refine hperm.trans ((hcell.append_right es).trans ?_)
            rw [List.append_assoc, List.append_assoc]
            exact .refl _
          have hfuel' : ∀ es', ((recordAll i j (recordAll i j f ds).forest
              (unaryOver l charts i j es')).forest.cellAt i j).length
                < fuel + (seen ++ [(c.lhs, id)]).length := by
            intro es'
            have hlt : ((recordAll i j (recordAll i j f ds).forest
                (unaryOver l charts i j es')).forest.cellAt i j).length
                  < fuel + 1 + seen.length := by
              simpa only [unaryOver_cons, recordAll_append] using
                hfuel ((c.lhs, id) :: es')
            rw [List.length_append, List.length_singleton]
            omega
          have hrest := ih _ _ (queue ++ es) hrec.sound (by rwa [hrec.max_eq])
            hcell' hfuel'
          simp only [List.map_cons, takenFrom, hc, unaryOver_cons,
            recordAll_append]
          rw [hqueue]
          simpa using hrest

/-- Where the fuel is more than is taken, the queue runs empty. -/
theorem drains_closeFrom (hij : i ≤ j) (fuel : Nat) (queue : List Nat)
    (r : Recorded) (hs : r.forest.Sound) (hj : j ≤ r.forest.cells.max)
    (hqueue : ∀ id ∈ queue, id < r.forest.constituents.size)
    (hfuel : (takenFrom l charts i j fuel queue r.forest).length < fuel) :
    Drains l charts i j queue r (takenFrom l charts i j fuel queue r.forest)
      (closeFrom l charts i j fuel queue r) := by
  induction fuel generalizing queue r with
  | zero => exact absurd hfuel (Nat.not_lt_zero _)
  | succ fuel ih =>
      cases queue with
      | nil => exact .empty r
      | cons id queue =>
          rw [List.forall_mem_cons] at hqueue
          obtain ⟨c, hc⟩ : ∃ c, r.forest.constituents[id]? = some c :=
            ⟨_, Array.getElem?_eq_getElem hqueue.1⟩
          have hrec := records_recordAll hs hij hj
            (unaryCompletions l charts i j c.lhs id)
          obtain ⟨es, hmade, hperm, -⟩ := hrec.cell
          unfold closeFrom
          simp only [takenFrom, hc, List.length_cons] at hfuel ⊢
          refine .take hc (ih _ _ hrec.sound (by rwa [hrec.max_eq]) ?_
            (Nat.lt_of_succ_lt_succ hfuel))
          intro k hk
          rcases List.mem_append.1 hk with hk | hk
          · exact Nat.lt_of_lt_of_le (hqueue.2 k hk) hrec.size_le
          · rw [hmade] at hk
            obtain ⟨e, he, rfl⟩ := List.mem_map.1 hk
            exact hrec.sound.lt_size
              (hperm.mem_iff.2 (List.mem_append_right _ he))

/-- The closure takes every constituent of the span exactly once: those that
completion has made and those that it makes itself. The bound on the fuel
holds where rules have no more left-hand sides than the grammars count
rules, so the loop would end without it. -/
theorem closeUnary_taken {f : Forest} {made : List Nat}
    {es : List (Symbol × Nat)} {lhss : List Symbol} (hij : i ≤ j)
    (hs : f.Sound) (hj : j ≤ f.cells.max) (hmade : made = es.map (·.2))
    (hcell : (f.cellAt i j).Perm es) (hlen : lhss.length ≤ ruleBound charts)
    (hlhss : ∀ lhs id, ∀ d ∈ unaryCompletions l charts i j lhs id,
      d.rule.rule.lhs ∈ lhss) :
    ∃ taken, Drains l charts i j made ⟨f, [], 0⟩ taken
          (closeUnary l charts i j f made)
      ∧ (closeUnary l charts i j f made).forest
        = (recordAll i j f (unaryOver l charts i j taken)).forest
      ∧ ((closeUnary l charts i j f made).forest.cellAt i j).Perm taken := by
  have hlisted : ∀ es', ((recordAll i j f
      (unaryOver l charts i j es')).forest.cellAt i j).length
        < made.length + ruleBound charts + 1 := by
    intro es'
    have hunary : ∀ d ∈ unaryOver l charts i j es', d.rule.rule.lhs ∈ lhss := by
      intro d hd
      obtain ⟨e, -, hd⟩ := List.mem_flatMap.1 hd
      exact hlhss e.1 e.2 d hd
    have hle := length_cellAt_le (records_recordAll hs hij hj _) hunary
    have hes := hcell.length_eq
    rw [hmade, List.length_map]
    omega
  have hperm := perm_takenFrom l charts hij
    (made.length + ruleBound charts + 1) f [] es hs hj (by simpa using hcell)
    (by simpa using hlisted)
  simp only [← hmade, List.nil_append] at hperm
  have hqueue : ∀ id ∈ made, id < f.constituents.size := by
    intro id hid
    rw [hmade] at hid
    obtain ⟨e, he, rfl⟩ := List.mem_map.1 hid
    exact hs.lt_size (hcell.mem_iff.2 he)
  have hforest := forest_closeFrom l charts
    (made.length + ruleBound charts + 1) made ⟨f, [], 0⟩ (i := i) (j := j)
  refine ⟨_, drains_closeFrom l charts hij _ made _ hs hj hqueue ?_, hforest,
    ?_⟩
  · exact hperm.length_eq ▸ hlisted _
  · unfold closeUnary
    rw [hforest]
    exact hperm

-- ============================================================ grounding

/-- The antecedents of what applies to a constituent. -/
theorem antecedents_unaryCompletions {lhs : Symbol} {id : Nat}
    {d : Derivation} (hd : d ∈ unaryCompletions l charts i j lhs id) :
    d.antecedents = [id] := by
  obtain ⟨c, -, hd⟩ := List.mem_flatMap.1 hd
  split at hd
  · cases hd
  · obtain ⟨r, -, rfl⟩ := List.mem_map.1 hd
    rfl

/-- The closure keeps a forest grounded. -/
theorem grounded_closeFrom (hij : i ≤ j) (fuel : Nat) (queue : List Nat)
    (r : Recorded) (hs : r.forest.Sound) (hj : j ≤ r.forest.cells.max)
    (hg : r.forest.Grounded) :
    (closeFrom l charts i j fuel queue r).forest.Grounded := by
  refine (closeFrom_induction (I := fun r => r.forest.Sound
      ∧ j ≤ r.forest.cells.max ∧ r.forest.Grounded)
    (fun r id c hc hr => ?_) fuel queue ⟨hs, hj, hg⟩).2.2
  obtain ⟨hs, hj, hg⟩ := hr
  have hid := (Array.getElem?_eq_some_iff.1 hc).1
  have hrec := records_recordAll hs hij hj
    (unaryCompletions l charts i j c.lhs id)
  refine ⟨hrec.sound, by rwa [hrec.max_eq],
    hg.recordAll hs hij hj fun d hd a ha => ?_⟩
  rw [antecedents_unaryCompletions l charts hd, List.mem_singleton] at ha
  omega

end LatticeParsing.Parse
