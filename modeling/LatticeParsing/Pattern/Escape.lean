/-
Escapes in the text of a pattern.

A backslash makes a plain character of each character that has a meaning in
patterns, and gives a meaning to some letters: control characters,
characters by their code, classes and anchors. Escapes that refer back to a
group are refused, and so is every escape that is not listed here.
-/
import LatticeParsing.Pattern.Flags
import LatticeParsing.Pattern.PropertyName

namespace LatticeParsing

namespace Pattern

/-- The smallest part of a pattern's text. -/
inductive Atom where
  /-- A character that stands for itself; `byte` marks one written by a
  two-digit code. -/
  | char (c : Char) (byte : Bool)
  | set (s : CharSet)
  | anchor (a : Anchor)
  deriving DecidableEq, Repr

-- ======================================================= signs and runs

/-- Takes a sign from the start of a text, if it stands there. -/
def takeMark (sign : Char) : List Char → Bool × List Char
  | [] => (false, [])
  | c :: rest => if c == sign then (true, rest) else (false, c :: rest)

/-- Takes the characters that `keep` holds for from the start of a text;
ignored text may follow each. `fuel` bounds the number of characters. -/
def takeRun (f : Flags) (keep : Char → Bool) : Nat → List Char →
    List Char × List Char
  | 0, cs => ([], cs)
  | _ + 1, [] => ([], [])
  | fuel + 1, c :: rest =>
    if keep c then
      let (t, r) := takeRun f keep fuel (f.skip rest)
      (c :: t, r)
    else ([], c :: rest)

-- ===================================================== plain characters

/-- Characters with a meaning in patterns. -/
def isMeta (c : Char) : Bool := "\\.+*?()|[]\x7b\x7d^$#&-~".toList.contains c

/-- Characters that may follow a backslash to stand for themselves. -/
def isEscapable (c : Char) : Bool :=
  isMeta c || (c.toNat < 128 && !c.isAlphanum && c != '<' && c != '>')

/-- The control characters that letters stand for. -/
def controlChar? : Char → Option Char
  | 'a' => some '\x07'
  | 'f' => some '\x0c'
  | 't' => some '\t'
  | 'n' => some '\n'
  | 'r' => some '\r'
  | 'v' => some '\x0b'
  | _ => none

-- ================================================== characters by code

/-- The value of a hexadecimal digit. -/
def hexDigit? (c : Char) : Option Nat :=
  if c.isDigit then some (c.toNat - '0'.toNat)
  else if 'a' ≤ c && c ≤ 'f' then some (c.toNat - 'a'.toNat + 10)
  else if 'A' ≤ c && c ≤ 'F' then some (c.toNat - 'A'.toNat + 10)
  else none

/-- The character whose code is written by the digits. -/
def charOfHex? (digits : List Char) : Option Char :=
  if digits.isEmpty then none
  else do
    let n ← digits.foldlM (fun acc c => return 16 * acc + (← hexDigit? c)) 0
    if n.isValidChar then some (Char.ofNat n) else none

/-- Takes `n` characters, passing over ignored text before each. -/
def takeChars (f : Flags) : Nat → List Char → Option (List Char × List Char)
  | 0, cs => some ([], cs)
  | n + 1, cs =>
    match f.skip cs with
    | [] => none
    | c :: rest => (takeChars f n rest).map fun (t, r) => (c :: t, r)

/-- Takes the characters up to a closing brace, passing over ignored text
before each; `fuel` bounds the number of characters. -/
def untilBrace (f : Flags) : Nat → List Char → Option (List Char × List Char)
  | 0, _ => none
  | fuel + 1, cs =>
    match f.skip cs with
    | [] => none
    | c :: rest =>
      if c == '\x7d' then some ([], rest)
      else (untilBrace f fuel rest).map fun (t, r) => (c :: t, r)

/-- Reads a character by its code: digits in braces, or exactly `width` of
them. -/
def codeChar? (f : Flags) (width : Nat) (cs : List Char) :
    Option (Atom × List Char) :=
  match f.skip cs with
  | '\x7b' :: rest => do
    let (digits, rest) ← untilBrace f (rest.length + 1) rest
    return (.char (← charOfHex? digits) false, rest)
  | rest => do
    let (digits, rest) ← takeChars f width rest
    return (.char (← charOfHex? digits) (width == 2), rest)

-- ============================================================== classes

/-- The classes of digits, blanks and characters of words. -/
def letterClass? (f : Flags) (letter : Char) : Option CharSet :=
  match letter, f.unicode with
  | 'd', true => some (Unicode.Category.ranges [.decimalNumber])
  | 's', true => some Unicode.Listed.whiteSpace
  | 'w', true => some Unicode.word
  | 'd', false => CharSet.asciiClass? "digit"
  | 's', false => CharSet.asciiClass? "space"
  | 'w', false => CharSet.asciiClass? "word"
  | _, _ => none

/-- Reads the name of a property: one character, or a text in braces. The
flag tells whether the name asks for the complement. -/
def property? (f : Flags) (cs : List Char) :
    Option (Bool × CharSet × List Char) :=
  match f.skip cs with
  | [] => none
  | '\x7b' :: rest => do
    let (name, rest) ← untilBrace f (rest.length + 1) rest
    let (negated, s) ← PropertyName.ofText? name
    return (negated, s, rest)
  | c :: rest =>
    if c == '\\' then none
    else (PropertyName.alone? [c]).map fun s => (false, s, rest)

/-- Reads the name of a property as the set of its characters, or of all
others. -/
def propertySet? (f : Flags) (negated : Bool) (cs : List Char) :
    Option (CharSet × List Char) := do
  let (complement, s, rest) ← property? f cs
  if !f.unicode then none
  else return (← f.negate? (negated != complement) (f.foldSet s), rest)

-- ============================================================== anchors

/-- A character in the name of a word edge. -/
def namesEdge (c : Char) : Bool := c.isAlpha || c == '-'

/-- Reads the word edge after a backslash and `b`. A brace begins the name
of an edge if a letter or a hyphen follows it, and a repetition
otherwise. -/
def wordEdge? (f : Flags) (cs : List Char) : Option (WordEdge × List Char) :=
  match cs with
  | '\x7b' :: rest =>
    match f.skip rest with
    | [] => none
    | c :: more =>
      if namesEdge c then
        match takeRun f namesEdge (more.length + 1) (c :: more) with
        | (name, '\x7d' :: rest) =>
          match String.ofList name with
          | "start" => some (.start, rest)
          | "end" => some (.stop, rest)
          | "start-half" => some (.startHalf, rest)
          | "end-half" => some (.stopHalf, rest)
          | _ => none
        | _ => none
      else some (.boundary, cs)
  | _ => some (.boundary, cs)

-- ============================================================== escapes

/-- Reads what follows a backslash. -/
def escape? (f : Flags) : List Char → Option (Atom × List Char)
  | [] => none
  | c :: rest =>
    match c with
    | 'x' => codeChar? f 2 rest
    | 'u' => codeChar? f 4 rest
    | 'U' => codeChar? f 8 rest
    | 'p' => (propertySet? f false rest).map fun (s, r) => (.set s, r)
    | 'P' => (propertySet? f true rest).map fun (s, r) => (.set s, r)
    | 'A' => some (.anchor .textStart, rest)
    | 'z' => some (.anchor .textEnd, rest)
    | 'b' =>
      (wordEdge? f rest).map fun (e, r) => (.anchor (.word e (!f.unicode)), r)
    | 'B' => some (.anchor (.word .noBoundary (!f.unicode)), rest)
    | '<' => some (.anchor (.word .start (!f.unicode)), rest)
    | '>' => some (.anchor (.word .stop (!f.unicode)), rest)
    | _ =>
      if isEscapable c then some (.char c false, rest)
      else match controlChar? c with
        | some d => some (.char d false, rest)
        | none => do
          let s ← letterClass? f c.toLower
          return (.set (← f.negate? c.isUpper s), rest)

end Pattern

end LatticeParsing
