/-
Normal forms of patterns.

Patterns are put together by three operations that keep them in a normal
form: concatenations are flat and hold no empty parts and no literals side
by side, choices are flat and become sets where each branch spans one
character, and repetitions are not trivial. A choice between concatenations
that begin alike is a concatenation whose first part is what they share.
-/
import LatticeParsing.Pattern.Basic

namespace LatticeParsing

namespace Pattern

-- ============================================================= lengths

/-- The number of bytes of a character in UTF-8. -/
def codeBytes (n : Nat) : Nat :=
  if n < 0x80 then 1 else if n < 0x800 then 2 else if n < 0x10000 then 3 else 4

/-- The number of bytes of a text in UTF-8. -/
def textBytes (w : List Char) : Nat :=
  (w.map fun c => codeBytes c.toNat).foldr (· + ·) 0

/-- The least number of bytes that a pattern spans; `none` if it is a
pattern, or one of its parts is, that spans nothing at all. -/
def minBytes? : Pattern → Option Nat
  | empty => some 0
  | literal w => some (textBytes w)
  | set s => s.head?.map fun (lo, _) => codeBytes lo
  | anchor _ => some 0
  | group _ p => p.minBytes?
  | cat p q => do return (← p.minBytes?) + (← q.minBytes?)
  | alt p q => do return min (← p.minBytes?) (← q.minBytes?)
  | times p min _ _ => p.minBytes?.map fun n => n * min

/-- The greatest number of bytes that a pattern spans, if there is one. -/
def maxBytes? : Pattern → Option Nat
  | empty => some 0
  | literal w => some (textBytes w)
  | set s => s.getLast?.map fun (_, hi) => codeBytes hi
  | anchor _ => some 0
  | group _ p => p.maxBytes?
  | cat p q => do return (← p.maxBytes?) + (← q.maxBytes?)
  | alt p q => do return max (← p.maxBytes?) (← q.maxBytes?)
  | times p _ max _ => do return (← p.maxBytes?) * (← max)

-- ============================================================== leaves

/-- One character of a set. A set with one member is a literal. -/
def ofSet (s : CharSet) : Pattern :=
  match CharSet.single? s with
  | some c => literal [c]
  | none => set s

-- ====================================================== concatenations

/-- A part before a concatenation. -/
def prepend : Pattern → Pattern → Pattern
  | empty, q => q
  | p, empty => p
  | literal u, literal v => literal (u ++ v)
  | literal u, cat (literal v) q => cat (literal (u ++ v)) q
  | p, q => cat p q

/-- Two concatenations in a row. -/
def append : Pattern → Pattern → Pattern
  | cat p q, r => prepend p (append q r)
  | p, r => prepend p r

/-- The concatenation of a list of patterns. -/
def concat (ps : List Pattern) : Pattern := ps.foldr append empty

/-- The parts of a concatenation; any other pattern is its only part. -/
def parts : Pattern → List Pattern
  | cat p q => p :: q.parts
  | p => [p]

-- ============================================================= choices

/-- The branches of a choice; any other pattern is its only branch. -/
def branches : Pattern → List Pattern
  | alt p q => p :: q.branches
  | p => [p]

/-- The choice between the branches of a list. One without branches spans
nothing at all. -/
def ofBranches : List Pattern → Pattern
  | [] => set []
  | [p] => p
  | p :: q :: rest => alt p (ofBranches (q :: rest))

/-- The set of one character. -/
def character? : Pattern → Option CharSet
  | literal [c] => some (CharSet.single c)
  | _ => none

/-- The set that a pattern is. -/
def set? : Pattern → Option CharSet
  | set s => some s
  | _ => none

/-- The parts with which two lists begin alike. -/
def sharedParts : List Pattern → List Pattern → List Pattern
  | p :: ps, q :: qs => if p = q then p :: sharedParts ps qs else []
  | _, _ => []

/-- Whether a pattern is a concatenation. -/
def isConcat : Pattern → Bool
  | cat _ _ => true
  | _ => false

/-- The parts with which all branches begin, and what is left of the
branches. There are none unless all branches are concatenations. -/
def lift? : List Pattern → Option (List Pattern × List Pattern)
  | [] => none
  | p :: ps =>
    let shared := (ps.map parts).foldl sharedParts p.parts
    if (p :: ps).all isConcat && !shared.isEmpty then
      some (shared, (p :: ps).map fun q => concat (q.parts.drop shared.length))
    else none

/-- The choice between the patterns of a list; `fuel` bounds how often
shared parts are taken out. -/
def choiceFrom : Nat → List Pattern → Pattern
  | fuel, ps =>
    let bs := ps.flatMap branches
    match bs with
    | [p] => p
    | _ =>
      match (bs.mapM character?).or (bs.mapM set?) with
      | some sets => ofSet (.unionAll sets)
      | none =>
        match fuel, lift? bs with
        | fuel + 1, some (shared, rest) =>
          concat (shared ++ [choiceFrom fuel rest])
        | _, _ => ofBranches bs

/-- The number of literals, sets and signs in a pattern. -/
def weight : Pattern → Nat
  | group _ p => p.weight + 1
  | cat p q => p.weight + q.weight + 1
  | alt p q => p.weight + q.weight + 1
  | times p _ _ _ => p.weight + 1
  | _ => 1

/-- The choice between the patterns of a list. Every part that is taken out
makes the rest lighter. -/
def choice (ps : List Pattern) : Pattern :=
  choiceFrom ((ps.map weight).foldr (· + ·) 0) ps

-- ========================================================= repetitions

/-- A pattern repeated between `min` and `max` times. A pattern that spans
no characters is repeated once at most. -/
def repeated (p : Pattern) (min : Nat) (max : Option Nat) (isLazy : Bool) :
    Pattern :=
  let isEmpty := p.maxBytes? == some 0
  let min := if isEmpty then Nat.min min 1 else min
  let max := if isEmpty then some (Nat.min (max.getD 1) 1) else max
  if min = 0 && max == some 0 then empty
  else if min = 1 && max == some 1 then p
  else times p min max isLazy

end Pattern

end LatticeParsing
