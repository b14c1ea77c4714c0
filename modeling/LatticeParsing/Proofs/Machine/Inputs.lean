/-
Inputs that are stored.

A lattice is made from a sentence, from arcs or from a text, and stored with
its distances. Arcs are added one by one to the nodes that they leave; the
machine would stop at an arc that leaves no node, but every arc is checked
before. That it leads forward to a node of the lattice is enough: the node
that it leaves stands before that one.
-/
import LatticeParsing.Proofs.Lattice.Building
import LatticeParsing.Proofs.Machine.Distances

namespace LatticeParsing.Machine

open LatticeParsing.Lattice LatticeText

-- ================================================================ inputs

/-- What a lattice is made from. -/
inductive Input where
  | sentence (words : List Symbol)
  | arcs (nodes : Nat) (arcs : List Arc)
  | text (v : Vocabulary) (text : String)

/-- The lattice of an input. -/
def Input.lattice : Input → Except LatticeError Lattice
  | sentence words => .ok (ofSentence words)
  | arcs nodes as => ofArcs nodes as
  | text v s => (Lattice.ofText v s).2

/-- What of an input lies in memory as one text, which is never longer than
the numbers can count. -/
def Input.bytes : Input → Nat
  | text _ s => Machine.bytes s.toList
  | _ => 0

/-- The arcs that leave a node of a sentence. -/
def wordArc? (top : Nat) (words : List Symbol) (t : Nat) :
    Option (List (List Arc)) :=
  match words[t]? with
  | none => some [[]]
  | some w => do
    let head ← add? top t 1
    return [[⟨t, head, .zero, w⟩]]

/-- Adds arcs to the nodes that they leave. -/
def attach? (count : Nat) (nodes : Array (List Arc)) :
    List Arc → Option (Except LatticeError (Array (List Arc)))
  | [] => some (.ok nodes)
  | a :: as =>
    match a.error? count with
    | some e => some (.error e)
    | none => do
      let nodes ← change? nodes a.tail (· ++ [a])
      attach? count nodes as

/-- Stores the lattice with the given arcs. -/
def storeArcs? (top count : Nat) (as : List Arc) :
    Option (Except LatticeError StoredLattice) :=
  if count = 0 then some (.error .empty)
  else do
    match ← attach? count (Array.replicate count []) as with
    | .error e => return .error e
    | .ok nodes => return .ok (← store? top nodes)

/-- Stores the lattice of a sentence. -/
def storeSentence? (top : Nat) (words : List Symbol) :
    Option StoredLattice := do
  let nodes ← collect? (wordArc? top words) (List.range (words.length + 1))
  store? top nodes.toArray

/-- Reads a lattice and stores it. -/
def storeText? (top : Nat) (v : Vocabulary) (text : String) :
    Option (Except LatticeError StoredLattice) := do
  match (← readText? top v text.toList).2 with
  | .error e => return .error e
  | .ok (count, as) => storeArcs? top count as

/-- Stores the lattice of an input. -/
def Input.store? (top : Nat) :
    Input → Option (Except LatticeError StoredLattice)
  | sentence words => (storeSentence? top words).map .ok
  | arcs nodes as => storeArcs? top nodes as
  | text v s => storeText? top v s

-- ============================================================= sentences

variable {top count : Nat} {as : List Arc}

/-- A sentence is stored. -/
theorem storeSentence?_returns (words : List Symbol)
    (htop : (ofSentence words).nodeCount * (ofSentence words).nodeCount ≤ top) :
    Returns (storeSentence? top words) (Stores · (ofSentence words)) := by
  have hcount := nodeCount_ofSentence words
  have hlen : words.length + 1 ≤ top :=
    Nat.le_trans (Nat.le_mul_self _) (hcount ▸ htop)
  have hword : ∀ t ∈ List.range (words.length + 1),
      wordArc? top words t = some [(ofSentence words).arcsFrom t] := by
    intro t ht
    rw [List.mem_range] at ht
    unfold wordArc?
    rw [arcsFrom_ofSentence]
    cases words[t]? with
    | none => rfl
    | some w =>
        simp only [add?_eq (show t + 1 ≤ top by omega), Option.bind_eq_bind,
          Option.bind_some]
        rfl
  have hnodes : ((List.range (words.length + 1)).flatMap fun t =>
      [(ofSentence words).arcsFrom t]).toArray
        = (ofSentence words).outgoing := by
    rw [← List.map_eq_flatMap]
    refine Array.ext (by simp [ofSentence]) fun t ht ht' => ?_
    simp [arcsFrom, ht']
  unfold storeSentence?
  rw [collect?_eq hword]
  simp only [Option.bind_eq_bind, Option.bind_some, hnodes]
  exact store?_returns htop

-- ================================================================== arcs

/-- An arc that fits is added to the node that it leaves. -/
theorem attach?_cons {nodes : Array (List Arc)} {a : Arc}
    (hsize : nodes.size = count) (ha : a.error? count = none) :
    attach? count nodes (a :: as)
      = attach? count (nodes.modify a.tail (· ++ [a])) as := by
  have htail : a.tail < nodes.size := by
    obtain ⟨hforward, hhead⟩ := Arc.error?_eq_none.1 ha
    omega
  conv_lhs => unfold attach?
  rw [ha, change?_eq htail]
  rfl

/-- An arc that does not fit is refused. -/
theorem attach?_error {nodes : Array (List Arc)} {e : LatticeError}
    (hsize : nodes.size = count)
    (h : as.findSome? (Arc.error? count) = some e) :
    attach? count nodes as = some (.error e) := by
  induction as generalizing nodes with
  | nil => cases h
  | cons a as ih =>
      rw [List.findSome?_cons] at h
      cases ha : a.error? count with
      | some e' =>
          rw [ha] at h
          injection h with h
          unfold attach?
          rw [ha, h]
      | none =>
          rw [ha] at h
          rw [attach?_cons hsize ha]
          exact ih (by rw [Array.size_modify, hsize]) h

/-- Arcs that fit are added to the nodes that they leave. -/
theorem attach?_ok {nodes : Array (List Arc)} (hsize : nodes.size = count)
    (h : as.findSome? (Arc.error? count) = none) :
    Returns (attach? count nodes as) fun r =>
      ∃ nodes', r = .ok nodes' ∧ ∀ t,
        nodes'[t]? = nodes[t]?.map (· ++ arcsWithTail as t) := by
  induction as generalizing nodes with
  | nil => exact ⟨_, rfl, nodes, rfl, fun t => by simp [arcsWithTail]⟩
  | cons a as ih =>
      rw [List.findSome?_cons] at h
      cases ha : a.error? count with
      | some e => rw [ha] at h; cases h
      | none =>
          rw [ha] at h
          rw [attach?_cons hsize ha]
          refine (ih (by rw [Array.size_modify, hsize]) h).imp fun r hr => ?_
          obtain ⟨nodes', rfl, hnodes'⟩ := hr
          refine ⟨nodes', rfl, fun t => ?_⟩
          rw [hnodes', Array.getElem?_modify]
          by_cases ht : a.tail = t
          · simp [ht, arcsWithTail, Function.comp_def]
          · simp [ht, arcsWithTail]

/-- Whether the machine stores a lattice as it is if it can count the pairs of
nodes, and refuses with the same error what is no lattice. -/
def StoresAs (top : Nat) (run : Option (Except LatticeError StoredLattice))
    (lattice : Except LatticeError Lattice) : Prop :=
  (∀ e, lattice = .error e → run = some (.error e))
    ∧ ∀ l, lattice = .ok l → l.nodeCount * l.nodeCount ≤ top →
        ∃ s, run = some (.ok s) ∧ Stores s l

theorem storeArcs?_stores (top count : Nat) (as : List Arc) :
    StoresAs top (storeArcs? top count as) (ofArcs count as) := by
  unfold ofArcs storeArcs?
  by_cases hcount : count = 0
  · rw [dif_pos hcount, if_pos hcount]
    refine ⟨fun e he => ?_, nofun⟩
    injection he with he
    rw [he]
  rw [dif_neg hcount, if_neg hcount]
  have hsize : (Array.replicate count ([] : List Arc)).size = count :=
    Array.size_replicate
  split
  case h_1 e he =>
    refine ⟨fun e' he' => ?_, nofun⟩
    injection he' with he'
    rw [attach?_error hsize he, he']
    rfl
  case h_2 hnone =>
    refine ⟨nofun, fun l hl htop => ?_⟩
    injection hl with hl
    obtain ⟨r, hattach, nodes, rfl, hnodes⟩ := attach?_ok hsize hnone
    have hstored : nodes = l.outgoing := by
      rw [← hl]
      refine Array.ext_getElem? fun t => ?_
      rw [hnodes, Array.getElem?_replicate]
      by_cases ht : t < count
      · simp [ht]
      · simp [ht]
    obtain ⟨s, hstore, hs⟩ := store?_returns htop
    refine ⟨s, ?_, hs⟩
    rw [hattach]
    simp only [Option.bind_eq_bind, Option.bind_some, hstored, hstore]
    rfl

-- ================================================================ inputs

theorem storeText?_stores {text : String} (v : Vocabulary)
    (hbytes : bytes text.toList ≤ top) :
    StoresAs top (storeText? top v text) (Lattice.ofText v text).2 := by
  unfold storeText?
  rw [readText?_eq hbytes, ofText_eq]
  simp only [Option.bind_eq_bind, Option.bind_some]
  cases (readText v text.toList).2 with
  | error e =>
      refine ⟨fun e' he => ?_, nofun⟩
      injection he with he
      rw [he]
      rfl
  | ok read => exact storeArcs?_stores top read.1 read.2

/-- The lattice of an input is stored. -/
theorem storeInput?_stores (input : Input) (hbytes : input.bytes ≤ top) :
    StoresAs top (input.store? top) input.lattice := by
  cases input with
  | sentence words =>
      refine ⟨nofun, fun l hl htop => ?_⟩
      obtain rfl : ofSentence words = l := by injection hl
      obtain ⟨s, hstore, hs⟩ := storeSentence?_returns words htop
      refine ⟨s, ?_, hs⟩
      show (storeSentence? top words).map Except.ok = _
      rw [hstore]
      rfl
  | arcs nodes as => exact storeArcs?_stores top nodes as
  | text v text => exact storeText?_stores v hbytes

end LatticeParsing.Machine
