/-
The size of the automata for a pattern.

A pattern is accepted only if two automata over bytes for it stay within a
fixed size, one that reads forwards and one that reads backwards. An
automaton is not kept; it is built in outline only, which tells how many
states it has and how many bytes the lists take that its states hold. A
counted repetition is written out. A state that branches holds a list of
the states it leads to, and a state that reads one of several ranges of
bytes holds a list of transitions.

The states for a set share what they can, as far as a table with a fixed
number of slots remembers what there is: forwards the states that lead on
alike, backwards the states that are led to alike.
-/
import Std.Data.HashMap
import LatticeParsing.Pattern.Encoding
import LatticeParsing.Pattern.Normal

namespace LatticeParsing

namespace Automaton

open Encoding

-- ============================================================== drafts

/-- An automaton in outline: the number of its states, and the bytes that
the lists of its states take. States are numbered in the order in which they
are added. -/
structure Draft where
  states : Nat := 0
  listBytes : Nat := 0
  deriving DecidableEq, Repr

/-- The bytes of a state without its list. -/
def stateBytes : Nat := 32

/-- The bytes of a transition in a list. -/
def transitionBytes : Nat := 8

/-- The bytes of a number of a state in a list. -/
def branchBytes : Nat := 4

/-- The bytes that an automaton may take. -/
def maxBytes : Nat := 10 * Nat.pow 2 20

/-- The bytes that an automaton takes. -/
def Draft.bytes (d : Draft) : Nat := stateBytes * d.states + d.listBytes

/-- The draft if it is not too large. -/
def Draft.checked? (d : Draft) : Option Draft :=
  if d.bytes ≤ maxBytes then some d else none

/-- Adds states without lists. -/
def Draft.add? (d : Draft) (count : Nat) : Option Draft :=
  Draft.checked? { d with states := d.states + count }

/-- Adds a state with a list of transitions. -/
def Draft.addReading? (d : Draft) (transitions : Nat) : Option Draft :=
  Draft.checked?
    ⟨d.states + 1, d.listBytes + transitionBytes * transitions⟩

/-- Adds entries to the lists of states that branch. -/
def Draft.branch? (d : Draft) (entries : Nat) : Option Draft :=
  Draft.checked? { d with listBytes := d.listBytes + branchBytes * entries }

-- ============================================================== tables

/-- The hash of a list of numbers. -/
def hashNumbers (ns : List Nat) : UInt64 :=
  ns.foldl (fun h n => (h ^^^ UInt64.ofNat n) * 1099511628211)
    14695981039346656037

/-- A table of states by keys. Each slot remembers the last key that came
to it. -/
structure SlotTable where
  slots : Nat
  entries : Std.HashMap Nat (List Nat × Nat) := {}

/-- The slot of a key. -/
def SlotTable.slot (t : SlotTable) (key : List Nat) : Nat :=
  (hashNumbers key).toNat % t.slots

/-- The state that is remembered for a key. -/
def SlotTable.find? (t : SlotTable) (key : List Nat) : Option Nat :=
  match t.entries[t.slot key]? with
  | some (k, state) => if k = key then some state else none
  | none => none

/-- Remembers a state for a key. -/
def SlotTable.insert (t : SlotTable) (key : List Nat) (state : Nat) :
    SlotTable :=
  { t with entries := t.entries.insert (t.slot key) (key, state) }

/-- A draft and what is remembered of its states. -/
structure Sharing where
  draft : Draft
  table : SlotTable

-- ======================================================= sets, forwards

/-- Paths that begin at one state, those that begin with the same range of
bytes taken together. -/
inductive ByteTree where
  | leaf
  | node (edges : List (ByteRange × ByteTree))

/-- The tree of paths in ascending order, none longer than `depth`. -/
def ByteTree.ofPaths : Nat → List (List ByteRange) → ByteTree
  | 0, _ => leaf
  | depth + 1, ps =>
    if ps.all List.isEmpty then leaf
    else
      node ((ps.splitBy fun p q => p.head? == q.head?).map fun same =>
        ((same.head?.bind List.head?).getD (0, 0),
          ofPaths depth (same.map List.tail)))

/-- The numbers that a list of transitions is known by. -/
def transitionKey (ts : List (ByteRange × Nat)) : List Nat :=
  ts.flatMap fun ((lo, hi), next) => [lo, hi, next]

/-- The state that has the given transitions, which is added if none is
remembered. -/
def Sharing.reading? (s : Sharing) (ts : List (ByteRange × Nat)) :
    Option (Nat × Sharing) :=
  let key := transitionKey ts
  match s.table.find? key with
  | some state => some (state, s)
  | none => do
    let d ← s.draft.addReading? ts.length
    return (s.draft.states, ⟨d, s.table.insert key s.draft.states⟩)

mutual

/-- Adds the states of a tree whose paths end at `target`. States come
after those that they lead to. -/
def ByteTree.build? (target : Nat) :
    ByteTree → Sharing → Option (Nat × Sharing)
  | .leaf, s => some (target, s)
  | .node edges, s => do
    let (ts, s) ← buildEdges? target edges s
    s.reading? ts

/-- Adds the states behind edges. -/
def buildEdges? (target : Nat) : List (ByteRange × ByteTree) → Sharing →
    Option (List (ByteRange × Nat) × Sharing)
  | [], s => some ([], s)
  | (r, t) :: rest, s => do
    let (next, s) ← t.build? target s
    let (ts, s) ← buildEdges? target rest s
    return ((r, next) :: ts, s)

end

/-- How many slots remember states that lead on alike. -/
def forwardSlots : Nat := 10000

/-- Adds the states for a set, read forwards: one at which all paths end,
and those of the tree of its paths. -/
def addTree? (t : ByteTree) (d : Draft) : Option Draft := do
  let target := d.states
  let (_, s) ← t.build? target ⟨← d.add? 1, ⟨forwardSlots, {}⟩⟩
  return s.draft

-- ====================================================== sets, backwards

/-- Adds the states of one path, read backwards into the state `next`. -/
def addPath? (next : Nat) : List ByteRange → Sharing → Option (Nat × Sharing)
  | [], s => some (next, s)
  | (lo, hi) :: rest, s =>
    let key := [next, lo, hi]
    match s.table.find? key with
    | some state => addPath? state rest s
    | none => do
      let d ← s.draft.add? 1
      let state := s.draft.states
      addPath? state rest ⟨d, s.table.insert key state⟩

/-- How many slots remember states that are led to alike. -/
def backwardSlots : Nat := 1000

/-- Adds the states for a set, read backwards: one that branches, one at
which all paths end, and those of the paths. -/
def addPaths? (ps : List (List ByteRange)) (d : Draft) : Option Draft := do
  let stop := d.states + 1
  let start : Sharing := ⟨← d.add? 2, ⟨backwardSlots, {}⟩⟩
  let addPath (s : Sharing) (p : List ByteRange) : Option Sharing := do
    let (_, s) ← addPath? stop p s
    return { s with draft := ← s.draft.branch? 1 }
  let s ← ps.foldlM addPath start
  return s.draft

-- ============================================================ literals

/-- The literals of a choice by their first bytes. A node counts how often a
literal has ended there, and numbers each of its edges by that count, since
literals that come later are tried after the one that ended. -/
inductive LiteralTree where
  | node (ended : Nat) (edges : List ((Nat × Nat) × LiteralTree))

namespace LiteralTree

/-- The node without edges. -/
def empty : LiteralTree := node 0 []

/-- Changes the node behind an edge, which is made if it is missing. -/
def growEdge (ended byte : Nat) (grow : LiteralTree → LiteralTree)
    (edges : List ((Nat × Nat) × LiteralTree)) :
    List ((Nat × Nat) × LiteralTree) :=
  if edges.any fun (e, _) => e == (ended, byte) then
    edges.map fun (e, t) => if e == (ended, byte) then (e, grow t) else (e, t)
  else edges ++ [((ended, byte), grow empty)]

/-- Inserts a literal. That one ends again at a node without edges makes no
difference. -/
def insert : List Nat → LiteralTree → LiteralTree
  | [], node ended edges =>
    if edges.isEmpty && 0 < ended then node ended edges
    else node (ended + 1) edges
  | b :: bs, node ended edges =>
    node ended (growEdge ended b (insert bs) edges)

/-- How many of the edges have each of the numbers below `n`. -/
def edgeCounts (n : Nat) (edges : List ((Nat × Nat) × LiteralTree)) :
    List Nat :=
  (List.range n).map fun k => edges.countP fun ((e, _), _) => e == k

mutual

/-- The states for the nodes with edges: for each number of edges one that
reads them, and one that branches between these. Nodes without edges need
no state of their own. -/
def outline : LiteralTree → Draft
  | node ended edges =>
    let counts := (edgeCounts (ended + 1) edges).filter (0 < ·)
    let lists := counts.map fun n => if n = 1 then 0 else transitionBytes * n
    let below := outlineEdges edges
    if counts.isEmpty then below
    else
      ⟨counts.length + 1 + below.states,
        lists.foldr (· + ·) 0 + branchBytes * (counts.length + ended)
          + below.listBytes⟩

/-- The states for the nodes behind edges. -/
def outlineEdges : List ((Nat × Nat) × LiteralTree) → Draft
  | [] => ⟨0, 0⟩
  | (_, t) :: rest =>
    let d := t.outline
    let e := outlineEdges rest
    ⟨d.states + e.states, d.listBytes + e.listBytes⟩

end

/-- Adds the states for a choice between literals, and one at which all of
them end. -/
def add? (t : LiteralTree) (d : Draft) : Option Draft :=
  let o := t.outline
  Draft.checked? ⟨d.states + 1 + o.states, d.listBytes + o.listBytes⟩

end LiteralTree

-- =============================================================== parts

/-- The direction in which an automaton reads. -/
inductive Direction where
  | forward
  | backward
  deriving DecidableEq, Repr

/-- A draft to which the states of a part have been added. The flag tells
whether the last state of the part branches, so that what follows takes an
entry of its list. -/
structure Built where
  draft : Draft
  branches : Bool

/-- Leads on from the last state of a part. -/
def Built.link? (b : Built) : Option Draft :=
  b.draft.branch? (if b.branches then 1 else 0)

/-- What adds the states of a part. -/
abbrev Builder := Draft → Option Built

/-- One part after another. -/
def inRow (first second : Builder) : Builder := fun d => do
  let a ← first d
  let b ← second (← a.link?)
  return b

/-- More copies of a part after what has been built. -/
def copies (one : Builder) : Nat → Built → Option Built
  | 0, b => some b
  | n + 1, b =>
    match b.link? with
    | none => none
    | some d =>
      match one d with
      | none => none
      | some b => copies one n b

/-- A part a fixed number of times. -/
def exactly (one : Builder) : Nat → Builder
  | 0, d => do return ⟨← d.add? 1, false⟩
  | n + 1, d => do copies one n (← one d)

/-- More copies of a part after what has been built, each of which may be
left out. The part is tried in a state that branches. -/
def optional (one : Builder) : Nat → Built → Option Built
  | 0, b => some b
  | n + 1, b =>
    match b.link? with
    | none => none
    | some d =>
      match d.add? 1 with
      | none => none
      | some d =>
        match one d with
        | none => none
        | some b =>
          match b.draft.branch? 2 with
          | none => none
          | some d => optional one n { b with draft := d }

/-- A part between `min` and `max` times. All copies that may be left out
lead to one last state. -/
def between (one : Builder) (min max : Nat) : Builder := fun d => do
  let first ← exactly one min d
  let b ← optional one (max - min) { first with draft := ← first.draft.add? 1 }
  return ⟨← b.link?, false⟩

/-- A part at most once. -/
def atMostOnce (one : Builder) : Builder := fun d => do
  let b ← one (← d.add? 1)
  let d ← b.link?
  return ⟨← (← d.add? 1).branch? 2, false⟩

/-- A part any number of times. Where it can span nothing, the state that
goes round stands behind it and another leads past it. -/
def anyNumber (one : Builder) (spansSome : Bool) : Builder := fun d => do
  if spansSome then
    let b ← one (← d.add? 1)
    return ⟨← (← b.link?).branch? 1, true⟩
  else
    let b ← one d
    let d ← b.link?
    return ⟨← (← d.add? 3).branch? 4, false⟩

/-- A part `n + 1` times or more. -/
def moreThan (one : Builder) (n : Nat) : Builder := fun d => do
  let b ← exactly one (n + 1) d
  let d ← b.link?
  return ⟨← (← d.add? 1).branch? 1, true⟩

/-- A part between `min` and `max` times. -/
def repeated (one : Builder) (spansSome : Bool) (min : Nat)
    (max : Option Nat) : Builder :=
  match min, max with
  | 0, some 1 => atMostOnce one
  | 0, none => anyNumber one spansSome
  | n + 1, none => moreThan one n
  | n, some m => if n = m then exactly one n else between one n m

/-- Between the numbered brackets of a group. Read backwards, groups leave
no trace. -/
def inGroup (dir : Direction) (inside : Builder) : Builder :=
  match dir with
  | .backward => inside
  | .forward => fun d => do
    let b ← inside (← d.add? 1)
    return ⟨← (← b.link?).add? 1, false⟩

/-- A branch of a choice, and its bytes if it is a literal. -/
structure Branch where
  literal : Option (List Nat)
  build : Builder

/-- The branches of a choice after the first two. -/
def laterBranches : List Branch → Draft → Option Draft
  | [], d => some d
  | b :: rest, d => do
    let built ← b.build d
    laterBranches rest (← (← built.link?).branch? 1)

/-- A choice. Literals alone share what they begin with; otherwise a state
branches between all branches, which end at one last state. -/
def choice (dir : Direction) : List Branch → Builder
  | [] => fun d => do return ⟨← (← d.add? 1).addReading? 0, false⟩
  | [b] => b.build
  | first :: second :: rest => fun d =>
    match (first :: second :: rest).mapM (·.literal) with
    | some literals => do
      let words := match dir with
        | .forward => literals
        | .backward => literals.map List.reverse
      let t := words.foldl (fun t w => t.insert w) LiteralTree.empty
      return ⟨← t.add? d, false⟩
    | none => do
      let b ← first.build d
      let b ← second.build (← b.link?)
      let d ← (← (← b.link?).add? 2).branch? 2
      return ⟨← laterBranches rest d, false⟩

/-- One character of a set. -/
def character (dir : Direction) (s : CharSet) : Builder :=
  if CharSet.isAscii s then fun d => do
    return ⟨← (← d.add? 1).addReading? s.length, false⟩
  else
    let ps := paths s
    match dir with
    | .forward =>
      let t := ByteTree.ofPaths 4 ps
      fun d => do return ⟨← addTree? t d, false⟩
    | .backward => fun d => do return ⟨← addPaths? ps d, false⟩

/-- The bytes of a text in UTF-8. -/
def literalBytes (w : List Char) : List Nat :=
  w.flatMap fun c => utf8Bytes c.toNat

/-- The branches of a pattern. -/
def branches (dir : Direction) : Pattern → List Branch
  | .empty => [⟨none, fun d => do return ⟨← d.add? 1, false⟩⟩]
  | .literal w =>
    let bytes := literalBytes w
    [⟨some bytes, fun d => do return ⟨← d.add? bytes.length, false⟩⟩]
  | .set s => [⟨none, character dir s⟩]
  | .anchor _ => [⟨none, fun d => do return ⟨← d.add? 1, false⟩⟩]
  | .group _ p => [⟨none, inGroup dir (choice dir (branches dir p))⟩]
  | .cat p q =>
    let first := choice dir (branches dir p)
    let second := choice dir (branches dir q)
    match dir with
    | .forward => [⟨none, inRow first second⟩]
    | .backward => [⟨none, inRow second first⟩]
  | .alt p q =>
    let first := branches dir p
    let rest := branches dir q
    match first with
    | [b] => b :: rest
    | bs => ⟨none, choice dir bs⟩ :: rest
  | .times p min max _ =>
    let one := choice dir (branches dir p)
    let spansSome := (p.minBytes?.map fun n => decide (0 < n)).getD false
    [⟨none, repeated one spansSome min max⟩]

-- ============================================================== wholes

/-- Whether a pattern spans something only from the start of the text. -/
def startsAtStart : Pattern → Bool
  | .anchor .textStart => true
  | .group _ p => startsAtStart p
  | .cat p q => startsAtStart p || (p.maxBytes? == some 0 && startsAtStart q)
  | .alt p q => startsAtStart p && startsAtStart q
  | .times p min _ _ => 0 < min && startsAtStart p
  | _ => false

/-- Whether a pattern spans something only up to the end of the text. -/
def stopsAtEnd : Pattern → Bool
  | .anchor .textEnd => true
  | .group _ p => stopsAtEnd p
  | .cat p q => stopsAtEnd q || (q.maxBytes? == some 0 && stopsAtEnd p)
  | .alt p q => stopsAtEnd p && stopsAtEnd q
  | .times p min _ _ => 0 < min && stopsAtEnd p
  | _ => false

/-- The first states of an automaton: one, or a loop over any bytes where
the pattern may begin later. -/
def begin? (anchored : Bool) : Option Draft :=
  if anchored then Draft.add? {} 1
  else do (← (← Draft.add? {} 2).addReading? 1).branch? 2

/-- The automaton for a pattern in outline, unless it is too large. The
whole is a group, and a last state tells that it has been spanned. -/
def outline? (dir : Direction) (p : Pattern) : Option Draft := do
  let anchored := match dir with
    | .forward => startsAtStart p
    | .backward => stopsAtEnd p
  let b ← inGroup dir (choice dir (branches dir p)) (← begin? anchored)
  (← b.link?).add? 1

/-- Whether the automata for a pattern are not too large. -/
def fits (p : Pattern) : Bool :=
  (outline? .forward p).isSome && (outline? .backward p).isSome

end Automaton

end LatticeParsing
