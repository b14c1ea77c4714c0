/-
Reading a pattern from its text.

The reader goes through the text once. It keeps the branch that is being
read, the finished branches of the innermost group, and a stack of the
groups around it. A text is refused when a group, a bracket expression, an
escape, a repetition or a flag is malformed, when its parts nest more than
250 deep, and when the automata for the pattern would grow past a fixed
size.
-/
import LatticeParsing.Text.Number
import LatticeParsing.Pattern.Automaton
import LatticeParsing.Pattern.Bracket

namespace LatticeParsing

namespace Pattern

-- =============================================================== state

/-- A part of a branch: the pattern, how deeply its text nests, and whether
a repetition may follow it. Only the setting of flags may not be
repeated. -/
structure Part where
  pattern : Pattern
  height : Nat
  repeatable : Bool
  deriving DecidableEq, Repr

namespace Part

/-- A part that does not nest. -/
def leaf (p : Pattern) : Part := ⟨p, 0, true⟩

/-- The setting of flags, which spans nothing. -/
def directive : Part := ⟨.empty, 0, false⟩

/-- One more than the greatest height of several parts; a single part keeps
its height. -/
def heightOf : List Part → Nat
  | [] => 0
  | [p] => p.height
  | ps => 1 + (ps.map (·.height)).foldl max 0

/-- The concatenation of parts, given last first. -/
def concat (ps : List Part) : Part :=
  ⟨Pattern.concat (ps.reverse.map (·.pattern)), heightOf ps, true⟩

/-- The choice between branches, given last first. -/
def choice (ps : List Part) : Part :=
  ⟨Pattern.choice (ps.reverse.map (·.pattern)), heightOf ps, true⟩

end Part

/-- The inside of a group that is still open: its number if it has one, the
flags in force, the parts of the branch that is being read and the finished
branches, each last first. -/
structure OpenGroup where
  number : Option Nat
  flags : Flags
  parts : List Part
  branches : List Part

namespace OpenGroup

/-- Adds a part to the branch that is being read. -/
def add (g : OpenGroup) (p : Part) : OpenGroup :=
  { g with parts := p :: g.parts }

/-- Ends a branch and begins the next. -/
def nextBranch (g : OpenGroup) : OpenGroup :=
  { g with parts := [], branches := Part.concat g.parts :: g.branches }

/-- The whole inside of the group. -/
def inside (g : OpenGroup) : Part :=
  Part.choice (Part.concat g.parts :: g.branches)

/-- The group at its closing parenthesis. -/
def close (g : OpenGroup) : Part :=
  let p := g.inside
  let pattern := match g.number with
    | some n => .group n p.pattern
    | none => p.pattern
  ⟨pattern, 1 + p.height, true⟩

end OpenGroup

/-- What the reader knows between two parts: the innermost open group, the
ones around it, how many groups have been numbered, and the names of groups
that have occurred. -/
structure ReaderState where
  current : OpenGroup
  outer : List OpenGroup
  groups : Nat
  names : List (List Char)

/-- The state before the first part. The groups that have numbers are counted
from one. -/
def ReaderState.start : ReaderState := ⟨⟨none, {}, [], []⟩, [], 1, []⟩

/-- Adds a part to the innermost group. -/
def ReaderState.add (s : ReaderState) (p : Part) : ReaderState :=
  { s with current := s.current.add p }

-- ============================================================== groups

/-- A first character of a group's name. -/
def startsName (c : Char) : Bool := c == '_' || Unicode.isAlphabetic c

/-- A later character of a group's name. -/
def continuesName (c : Char) : Bool :=
  startsName c || c == '.' || c == '[' || c == ']' || Unicode.isNumeric c

/-- Whether a group may have a name. -/
def isGroupName : List Char → Bool
  | [] => false
  | c :: rest => startsName c && rest.all continuesName

/-- Reads a group's name through the angle bracket that closes it. -/
def groupName? (cs : List Char) : Option (List Char × List Char) :=
  match cs.dropWhile (· != '>') with
  | [] => none
  | _ :: rest =>
    let name := cs.takeWhile (· != '>')
    if isGroupName name then some (name, rest) else none

/-- Whether a condition on the text around a group begins here. -/
def startsLookAround (cs : List Char) : Bool :=
  [['='], ['!'], ['<', '='], ['<', '!']].any fun sign =>
    (sign.isPrefixOf? cs).isSome

/-- Passes over the sign that a group's name follows. -/
def nameStart? (cs : List Char) : Option (List Char) :=
  (['P', '<'].isPrefixOf? cs).or (['<'].isPrefixOf? cs)

/-- Reads flags through the colon or the parenthesis that ends them. A
hyphen, which may occur once and not last, turns to switching off; no flag
occurs twice. `seen` holds what has been read, last first. -/
def readFlags? (seen : List Char) (f : Flags) :
    List Char → Option (Flags × Bool × Char × List Char)
  | [] => none
  | c :: rest =>
    if c == ':' || c == ')' then
      if seen.head? == some '-' then none
      else some (f, seen.isEmpty, c, rest)
    else if seen.contains c then none
    else if c == '-' then readFlags? (c :: seen) f rest
    else do readFlags? (c :: seen) (← f.set? c (!seen.contains '-')) rest

/-- Opens a group without number and with the given flags inside. -/
def ReaderState.openPlain (s : ReaderState) (f : Flags) : ReaderState :=
  { s with current := ⟨none, f, [], []⟩, outer := s.current :: s.outer }

/-- Opens the next numbered group. -/
def ReaderState.openNumbered (s : ReaderState) : ReaderState :=
  { s with
    current := ⟨some s.groups, s.current.flags, [], []⟩
    outer := s.current :: s.outer
    groups := s.groups + 1 }

/-- Opens the next numbered group after its name has been read, which no
other group may have. -/
def ReaderState.openNamed? (s : ReaderState) (cs : List Char) :
    Option (ReaderState × List Char) := do
  let (name, rest) ← groupName? cs
  if s.names.contains name then none
  else return ({ s with names := name :: s.names }.openNumbered, rest)

/-- Reads flags, for a group that they open or for the rest of the group
around them. -/
def ReaderState.openFlags? (s : ReaderState) (cs : List Char) :
    Option (ReaderState × List Char) := do
  let (inner, isBare, stop, rest) ← readFlags? [] s.current.flags cs
  if stop == ':' then return (s.openPlain inner, rest)
  else if isBare then none
  else
    return ({ s with current := { s.current with flags := inner } }.add
      .directive, rest)

/-- Reads what follows a parenthesis: a group, with a name, flags or
neither, or flags for the rest of the group around it. Conditions on the
text around a group are refused. -/
def ReaderState.parenthesis? (s : ReaderState) (cs : List Char) :
    Option (ReaderState × List Char) :=
  match takeMark '?' (s.current.flags.skip cs) with
  | (false, rest) => some (s.openNumbered, rest)
  | (true, rest) =>
    if startsLookAround rest then none
    else match nameStart? rest with
      | some rest => s.openNamed? rest
      | none => s.openFlags? rest

/-- Closes the innermost group. Its flags end with it. -/
def ReaderState.closeGroup? (s : ReaderState) : Option ReaderState :=
  match s.outer with
  | [] => none
  | g :: gs => some { s with current := g.add s.current.close, outer := gs }

-- ========================================================= repetitions

/-- Repeats the last part of the branch. A question mark at the start of the
rest marks the repetition as lazy. -/
def ReaderState.repeat? (s : ReaderState) (min : Nat) (max : Option Nat)
    (rest : List Char) : Option (ReaderState × List Char) :=
  match s.current.parts with
  | [] => none
  | p :: ps =>
    if p.repeatable then
      let (marked, rest) := takeMark '?' rest
      let isLazy := marked != s.current.flags.swapLazy
      let p' : Part :=
        ⟨repeated p.pattern min max isLazy, 1 + p.height, true⟩
      some ({ s with current := { s.current with parts := p' :: ps } }, rest)
    else none

/-- The greatest bound of a repetition, 2^32 - 1. -/
def maxBound : Nat := 4294967295

/-- Reads a bound of a repetition. Blanks may stand around it. -/
def bound? (f : Flags) (cs : List Char) : Option (Nat × List Char) := do
  let cs := cs.dropWhile Text.isBlank
  let (digits, rest) := takeRun f Char.isDigit (cs.length + 1) cs
  let n ← Text.digitsValue? digits
  if n ≤ maxBound then return (n, f.skip (rest.dropWhile Text.isBlank))
  else none

/-- Reads the upper bound of a repetition, if there is one, and the closing
brace. -/
def upperBound? (f : Flags) (cs : List Char) :
    Option (Option Nat × List Char) :=
  match ['\x7d'].isPrefixOf? (f.skip cs) with
  | some rest => some (none, rest)
  | none => do
    let (max, rest) ← bound? f (f.skip cs)
    return (some max, ← ['\x7d'].isPrefixOf? rest)

/-- Reads the bounds of a repetition after the opening brace, through the
closing one. -/
def bounds? (f : Flags) (cs : List Char) :
    Option (Nat × Option Nat × List Char) := do
  let (min, rest) ← bound? f (f.skip cs)
  match ['\x7d'].isPrefixOf? rest with
  | some rest => return (min, some min, rest)
  | none => do
    let (max, rest) ← upperBound? f (← [','].isPrefixOf? rest)
    if max.all (min ≤ ·) then return (min, max, rest) else none

-- ============================================================= reading

/-- An atom as a part of a branch. Outside Unicode a two-digit code stands
for ASCII characters only. -/
def Atom.part? (f : Flags) : Atom → Option Part
  | .char c byte =>
    if !f.unicode && byte && 128 ≤ c.toNat then none
    else some (.leaf (ofSet (f.foldSet (CharSet.single c))))
  | .set s => some (.leaf (ofSet s))
  | .anchor a => some (.leaf (.anchor a))

/-- Reads one part that starts with `c`, or the sign of a group, a branch
or a repetition. -/
def ReaderState.step? (s : ReaderState) (c : Char) (rest : List Char) :
    Option (ReaderState × List Char) :=
  let f := s.current.flags
  match c with
  | '(' => s.parenthesis? rest
  | ')' => s.closeGroup?.map fun s => (s, rest)
  | '|' => some ({ s with current := s.current.nextBranch }, rest)
  | '[' => do
    let (m, rest) ← bracket? f rest
    return (s.add ⟨ofSet m.set, m.height, true⟩, rest)
  | '?' => s.repeat? 0 (some 1) rest
  | '*' => s.repeat? 0 none rest
  | '+' => s.repeat? 1 none rest
  | '\x7b' => do
    let (min, max, rest) ← bounds? f rest
    s.repeat? min max (f.skip rest)
  | '\\' => do
    let (a, rest) ← escape? f rest
    return (s.add (← a.part? f), rest)
  | '.' => do return (s.add (.leaf (ofSet (← f.dot?))), rest)
  | '^' => some (s.add (.leaf (.anchor f.caret)), rest)
  | '$' => some (s.add (.leaf (.anchor f.dollar)), rest)
  | c => do return (s.add (← (Atom.char c false).part? f), rest)

/-- How deeply the parts of a pattern may nest. -/
def maxHeight : Nat := 250

/-- The pattern that has been read at the end of the text. -/
def ReaderState.finish? (s : ReaderState) : Option Pattern :=
  match s.outer with
  | _ :: _ => none
  | [] =>
    let whole := s.current.inside
    if whole.height ≤ maxHeight && Automaton.fits whole.pattern then
      some whole.pattern
    else none

/-- Reads the rest of a pattern; `fuel` bounds the number of steps. -/
def readFrom? : Nat → ReaderState → List Char → Option Pattern
  | 0, _, _ => none
  | fuel + 1, s, cs =>
    match s.current.flags.skip cs with
    | [] => s.finish?
    | c :: rest => do
      let (s, rest) ← s.step? c rest
      readFrom? fuel s rest

/-- The pattern with the given text, if there is one. Each step takes a
character at least, so the length of the text bounds the steps. -/
def read? (text : List Char) : Option Pattern :=
  readFrom? (text.length + 1) .start text

end Pattern

end LatticeParsing
