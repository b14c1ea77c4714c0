/-
Bracket expressions.

A bracket expression is a union of characters, ranges, classes and further
bracket expressions. Two such unions can be joined by intersection,
difference and symmetric difference, which bind alike and from the left.
The reader keeps the expressions that are still open on a stack.
-/
import LatticeParsing.Pattern.Escape

namespace LatticeParsing

namespace Pattern

-- =============================================================== stack

/-- A set together with how deeply its description nests. -/
structure NestedSet where
  set : CharSet
  height : Nat
  deriving DecidableEq, Repr

/-- The ways to join two unions. -/
inductive SetJoin where
  | inter
  | diff
  | symmDiff
  deriving DecidableEq, Repr

/-- Joins two sets. -/
def SetJoin.apply : SetJoin → CharSet → CharSet → CharSet
  | inter, s, t => s.inter t
  | diff, s, t => s.diff t
  | symmDiff, s, t => s.symmDiff t

/-- A bracket expression that is still open: whether it is negated, the
join that waits for its right side, and the members of the union that is
being read, last first. -/
structure OpenBracket where
  negated : Bool
  left : Option (SetJoin × NestedSet)
  members : List NestedSet

namespace OpenBracket

/-- Adds a member to the union that is being read. -/
def add (b : OpenBracket) (m : NestedSet) : OpenBracket :=
  { b with members := m :: b.members }

/-- Adds a member that does not nest. -/
def addSet (b : OpenBracket) (s : CharSet) : OpenBracket := b.add ⟨s, 0⟩

/-- The union that has been read. -/
def union (b : OpenBracket) : NestedSet :=
  match b.members with
  | [] => ⟨[], 0⟩
  | [m] => m
  | ms =>
    ⟨.unionAll (ms.reverse.map (·.set)),
      1 + (ms.map (·.height)).foldl max 0⟩

/-- The join that waits, applied to the union that has been read. -/
def joined (f : Flags) (b : OpenBracket) : NestedSet :=
  match b.left with
  | none => b.union
  | some (j, l) =>
    ⟨j.apply (f.foldSet l.set) (f.foldSet b.union.set),
      1 + max l.height b.union.height⟩

/-- Makes what has been read the left side of a join. -/
def join (f : Flags) (b : OpenBracket) (j : SetJoin) : OpenBracket :=
  { b with left := some (j, b.joined f), members := [] }

/-- The set of a bracket expression at its closing bracket. -/
def close? (f : Flags) (b : OpenBracket) : Option NestedSet := do
  let whole := b.joined f
  return ⟨← f.negate? b.negated (f.foldSet whole.set), 1 + whole.height⟩

end OpenBracket

-- ============================================================= opening

/-- Takes a closing bracket that stands for itself because nothing comes
before it. An expression does not end here. -/
def bracketMember? (f : Flags) (b : OpenBracket) (cs : List Char) :
    Option (OpenBracket × List Char) :=
  match b.members, cs with
  | _, [] => none
  | [], ']' :: rest =>
    match f.skip rest with
    | [] => none
    | rest => some (b.addSet (CharSet.single ']'), rest)
  | _, _ => some (b, cs)

/-- Reads what follows an opening bracket: a caret, hyphens, which stand for
themselves there, and a closing bracket that stands for itself. -/
def openBracket? (f : Flags) (cs : List Char) :
    Option (OpenBracket × List Char) :=
  let (negated, cs) := takeMark '^' (f.skip cs)
  let cs := f.skip cs
  let (hyphens, cs) := takeRun f (· == '-') (cs.length + 1) cs
  let members := hyphens.map fun c => ⟨CharSet.single c, 0⟩
  bracketMember? f ⟨negated, none, members⟩ cs

/-- Reads the name of an ASCII class through the colon and the bracket that
close it. -/
def asciiName? (cs : List Char) : Option (CharSet × List Char) :=
  match cs.dropWhile (· != ':') with
  | ':' :: ']' :: rest =>
    (CharSet.asciiClass? (String.ofList (cs.takeWhile (· != ':')))).map
      fun s => (s, rest)
  | _ => none

/-- Reads what follows an opening bracket inside a bracket expression as the
name of an ASCII class between colons, if it has that form. -/
def namedClass? : List Char → Option (Bool × CharSet × List Char)
  | ':' :: rest =>
    let (negated, rest) := takeMark '^' rest
    (asciiName? rest).map fun (s, rest) => (negated, s, rest)
  | _ => none

-- ============================================================= members

/-- Reads a character, a class or an escape inside brackets. -/
def bracketAtom? (f : Flags) : List Char → Option (Atom × List Char)
  | [] => none
  | '\\' :: rest => escape? f rest
  | c :: rest => some (.char c false, rest)

/-- A character as an end of a range. Outside Unicode only ASCII
characters are members of sets. -/
def Atom.rangeEnd? (f : Flags) : Atom → Option Char
  | .char c _ => if f.unicode || c.toNat < 128 then some c else none
  | _ => none

/-- A member that is not a range. -/
def Atom.member? (f : Flags) : Atom → Option CharSet
  | .char c _ =>
    if f.unicode || c.toNat < 128 then some (CharSet.single c) else none
  | .set s => some s
  | .anchor _ => none

/-- Reads the upper end of a range and makes the range. -/
def rangeTo? (f : Flags) (first : Atom) (cs : List Char) :
    Option (CharSet × List Char) := do
  let (last, rest) ← bracketAtom? f (f.skip cs)
  let lo ← first.rangeEnd? f
  let hi ← last.rangeEnd? f
  if lo ≤ hi then return (CharSet.range lo hi, rest) else none

/-- Reads what follows a hyphen after a member. The hyphen makes a range
unless a closing bracket or another hyphen follows it. -/
def afterHyphen? (f : Flags) (first : Atom) (cs : List Char) :
    Option (CharSet × List Char) :=
  if f.peek cs == some ']' || f.peek cs == some '-' then do
    return (← first.member? f, '-' :: cs)
  else rangeTo? f first cs

/-- Reads a member or a range of characters. An expression does not end
here. -/
def bracketRange? (f : Flags) (cs : List Char) :
    Option (CharSet × List Char) := do
  let (first, rest) ← bracketAtom? f cs
  match f.skip rest with
  | [] => none
  | '-' :: more => afterHyphen? f first more
  | rest => return (← first.member? f, rest)

-- ========================================================= expressions

/-- Reads what follows an opening bracket inside a bracket expression: a
class, which is a member of the expression, or an expression of its own, which
is then the innermost one. -/
def innerBracket? (f : Flags) (current : OpenBracket)
    (outer : List OpenBracket) (cs : List Char) :
    Option (OpenBracket × List OpenBracket × List Char) :=
  match namedClass? cs with
  | some (negated, s, rest) => do
    let s ← f.negate? negated (f.foldSet s)
    return (current.addSet s, outer, rest)
  | none => do
    let (inner, rest) ← openBracket? f cs
    return (inner, current :: outer, rest)

/-- Reads a bracket expression to its end. `current` is the innermost open
expression and `outer` the ones around it; `fuel` bounds the number of
members. -/
def bracketFrom? (f : Flags) : Nat → OpenBracket → List OpenBracket →
    List Char → Option (NestedSet × List Char)
  | 0, _, _, _ => none
  | fuel + 1, current, outer, cs =>
    match f.skip cs with
    | [] => none
    | '[' :: rest => do
      let (current, outer, rest) ← innerBracket? f current outer rest
      bracketFrom? f fuel current outer rest
    | ']' :: rest => do
      let s ← current.close? f
      match outer with
      | [] => return (s, rest)
      | o :: os => bracketFrom? f fuel (o.add s) os rest
    | '&' :: '&' :: rest =>
      bracketFrom? f fuel (current.join f .inter) outer rest
    | '-' :: '-' :: rest =>
      bracketFrom? f fuel (current.join f .diff) outer rest
    | '~' :: '~' :: rest =>
      bracketFrom? f fuel (current.join f .symmDiff) outer rest
    | cs => do
      let (s, rest) ← bracketRange? f cs
      bracketFrom? f fuel (current.addSet s) outer rest

/-- Reads a bracket expression after its opening bracket. -/
def bracket? (f : Flags) (cs : List Char) : Option (NestedSet × List Char) := do
  let (b, rest) ← openBracket? f cs
  bracketFrom? f (cs.length + 1) b [] rest

end Pattern

end LatticeParsing
