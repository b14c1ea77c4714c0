/-
Lattices written as nested tuples.

  ((('a',0.0,1),),(('b',0.0,1),('bc',0.5,2),),(('c',0.0,1),),)

The outer tuple lists the nodes but for the last, each node its arcs, and an
arc its label in quotes, its cost and how many nodes ahead it leads. Commas
and blanks may stand anywhere between the tuples.

The text is cut into tuples level by level: first the outer one, then the
nodes, then the arcs of one node after the other. Quotes, which may hold
parentheses and escapes, are followed from the first opening parenthesis of
a level. Positions are counted in bytes from the start of the whole text.
The labels are interned as the arcs are read, so the vocabulary keeps those
that stand before a fault.
-/
import LatticeParsing.Lattice.Basic
import LatticeParsing.Cost.Read
import LatticeParsing.Unicode.Property

namespace LatticeParsing

open Text

namespace LatticeText

-- ============================================================== tuples

/-- The inside of a pair of parentheses and the position where it
starts. -/
structure Tuple where
  offset : Nat
  body : List Char
  deriving DecidableEq, Repr

/-- Whether a character stands in quotes, and after a backslash in
them. -/
inductive Quoting where
  | bare
  | quoted (mark : Char)
  | escaped (mark : Char)
  deriving DecidableEq, Repr

/-- The state of quoting after a character inside quotes. -/
def Quoting.next (mark c : Char) : Quoting :=
  if c == '\\' then .escaped mark
  else if c == mark then .bare
  else .quoted mark

/-- True of the characters that may stand between tuples. -/
def isSeparator (c : Char) : Bool := isBlank c || c == ','

/-- Cuts a text into its outermost tuples. `pos` is the position of the text,
`depth` the number of open parentheses, and `start` and `body` are where the
tuple that is being read started and its characters, last first. -/
def tuplesFrom (pos depth : Nat) (quoting : Quoting) (start : Nat)
    (body : List Char) : List Char → Except LatticeError (List Tuple)
  | [] =>
    if depth = 0 then .ok [] else .error (.malformed pos .unterminated)
  | c :: cs =>
    let next := pos + c.utf8Size
    match quoting with
    | .escaped mark => tuplesFrom next depth (.quoted mark) start (c :: body) cs
    | .quoted mark => tuplesFrom next depth (.next mark c) start (c :: body) cs
    | .bare =>
      if c == '(' then
        if depth = 0 then tuplesFrom next 1 .bare next [] cs
        else tuplesFrom next (depth + 1) .bare start (c :: body) cs
      else if c == ')' then
        match depth with
        | 0 => .error (.malformed pos .unbalanced)
        | 1 => do
          let rest ← tuplesFrom next 0 .bare start [] cs
          return ⟨start, body.reverse⟩ :: rest
        | d + 2 => tuplesFrom next (d + 1) .bare start (c :: body) cs
      else if depth = 0 then
        if isSeparator c then tuplesFrom next 0 .bare start [] cs
        else .error (.malformed pos (.unexpected c))
      else if c == '\'' || c == '"' then
        tuplesFrom next depth (.quoted c) start (c :: body) cs
      else tuplesFrom next depth .bare start (c :: body) cs

/-- The outermost tuples of a text at a position. -/
def tuples (t : Tuple) : Except LatticeError (List Tuple) :=
  tuplesFrom t.offset 0 .bare t.offset [] t.body

-- ================================================================ arcs

/-- The parts of an arc as they are written, the label without its
escapes. -/
structure ArcText where
  label : List Char
  cost : List Char
  offset : List Char
  deriving DecidableEq, Repr

/-- Reads a label through the quote that ends it. An escaped character
stands for itself and may not be a line feed. -/
def label? (mark : Char) : List Char → Option (List Char × List Char)
  | [] => none
  | '\\' :: c :: cs =>
    if c == '\n' then none
    else (label? mark cs).map fun (l, rest) => (c :: l, rest)
  | c :: cs =>
    if c == mark then some ([], cs)
    else if c == '\\' then none
    else (label? mark cs).map fun (l, rest) => (c :: l, rest)

/-- Passes over blanks. -/
def skipBlanks (cs : List Char) : List Char := cs.dropWhile isBlank

/-- Passes over a comma and the blanks around it. -/
def comma? (cs : List Char) : Option (List Char) :=
  match skipBlanks cs with
  | ',' :: rest => some (skipBlanks rest)
  | _ => none

/-- Passes over a comma if there is one, and the blanks around it. -/
def skipComma (cs : List Char) : List Char := (comma? cs).getD (skipBlanks cs)

/-- Reads the longest non-empty start of a text without separators. -/
def token? (cs : List Char) : Option (List Char × List Char) :=
  let token := cs.takeWhile (!isSeparator ·)
  if token.isEmpty then none else some (token, cs.dropWhile (!isSeparator ·))

/-- Reads the quoted label at the start of an arc. -/
def quotedLabel? (cs : List Char) : Option (List Char × List Char) :=
  match skipBlanks cs with
  | '\'' :: rest => label? '\'' rest
  | '"' :: rest => label? '"' rest
  | _ => none

/-- Reads the inside of an arc: a label, a cost and an offset, and perhaps
a last comma. The offset is made of decimal digits of any script. -/
def arcText? (cs : List Char) : Option ArcText := do
  let (label, rest) ← quotedLabel? cs
  let (cost, rest) ← token? (← comma? rest)
  let (offset, rest) ← token? (← comma? rest)
  if offset.all Unicode.isDecimalDigit && (skipComma rest).isEmpty then
    return ⟨label, cost, offset⟩
  else none

/-- Reads an arc that leaves node `tail`. -/
def arc (v : Vocabulary) (tail : Nat) (t : Tuple) :
    Except LatticeError (Vocabulary × Arc) := do
  let fail := fun fault => LatticeError.malformed t.offset fault
  let some text := arcText? t.body
    | throw (fail (.arcForm (String.ofList t.body)))
  let some cost := Cost.ofText? text.cost
    | throw (fail (.arcCost (String.ofList text.cost)))
  let some offset := count? text.offset
    | throw (fail (.arcOffset (String.ofList text.offset)))
  if maxCount < tail + offset then throw (fail .offsetRange)
  let (v, label) := v.internWord (String.ofList text.label)
  return (v, ⟨tail, tail + offset, cost, label⟩)

/-- Reads the arcs that leave node `tail` from first to last. -/
def arcs (v : Vocabulary) (tail : Nat) :
    List Tuple → Vocabulary × Except LatticeError (List Arc)
  | [] => (v, .ok [])
  | t :: ts =>
    match arc v tail t with
    | .error e => (v, .error e)
    | .ok (v, a) =>
      let (v, rest) := arcs v tail ts
      (v, rest.map (a :: ·))

/-- Reads the arcs of the nodes from `tail` on. -/
def nodes (v : Vocabulary) (tail : Nat) :
    List Tuple → Vocabulary × Except LatticeError (List Arc)
  | [] => (v, .ok [])
  | t :: ts =>
    match tuples t with
    | .error e => (v, .error e)
    | .ok arcTuples =>
      match arcs v tail arcTuples with
      | (v, .error e) => (v, .error e)
      | (v, .ok here) =>
        let (v, rest) := nodes v (tail + 1) ts
        (v, rest.map (here ++ ·))

/-- The tuples of the nodes: those inside the only outer tuple. -/
def nodeTuples (text : List Char) : Except LatticeError (List Tuple) := do
  match ← tuples ⟨0, text⟩ with
  | [outer] => tuples outer
  | outer => throw (.malformed 0 (.outerTuples outer.length))

end LatticeText

/-- Reads a lattice from its text. -/
def Lattice.ofText (v : Vocabulary) (text : String) :
    Vocabulary × Except LatticeError Lattice :=
  match LatticeText.nodeTuples text.toList with
  | .error e => (v, .error e)
  | .ok nodeTuples =>
    let (v, arcs) := LatticeText.nodes v 0 nodeTuples
    (v, arcs >>= Lattice.ofArcs (nodeTuples.length + 1))

end LatticeParsing
