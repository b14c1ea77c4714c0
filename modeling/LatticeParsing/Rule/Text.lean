/-
Rules written as text.

A rule stands on a line of its own, in three or four fields set off by three
bars:

  [X] ||| le [X,1] ||| the [X,1] ||| 0.3 1.2

The fields are the left-hand side, the source side, the target side and
features, which are passed over. Blank lines and lines that begin with a
number sign are passed over too, but count as lines.

The symbols of a line are interned as it is read. A text is read line by line
until a line is refused, and what has been interned up to there stays in the
vocabulary.
-/
import LatticeParsing.Rule.Basic

namespace LatticeParsing

-- ============================================================== errors

/-- Why a rule line is refused. -/
inductive RuleError where
  | fieldCount (line fields : Nat)
  | lhsNotNonterminal (line : Nat) (symbol : String)
  | emptySource (line : Nat)
  deriving DecidableEq, Repr

/-- The wording of a refusal. -/
def RuleError.message : RuleError → String
  | fieldCount line fields =>
    "line " ++ toString line
      ++ ": expected `[LHS] ||| source ||| target`, found "
      ++ toString fields ++ " field(s)"
  | lhsNotNonterminal line symbol =>
    "line " ++ toString line ++ ": left-hand side `" ++ symbol
      ++ "` is not a nonterminal"
  | emptySource line =>
    "line " ++ toString line ++ ": rule has an empty source side"

-- =============================================================== lines

namespace Text

/-- Puts a character in front of the first part of a text that has been
cut. -/
def consFirst (c : Char) : List (List Char) → List (List Char)
  | [] => [[c]]
  | part :: parts => (c :: part) :: parts

/-- Cuts a text at every three bars, from the left. -/
def splitBars : List Char → List (List Char)
  | [] => [[]]
  | '|' :: '|' :: '|' :: rest => [] :: splitBars rest
  | c :: rest => consFirst c (splitBars rest)

end Text

namespace Rule

open Text

/-- A left-hand side: a nonterminal's spelling without blanks. -/
def isLhs (field : List Char) : Bool :=
  Label.isNonterminal (String.ofList field) && !field.any isBlank

/-- Reads a rule line with the given number: the vocabulary afterwards, and
the rule. The source side is interned before the left-hand side. -/
def readLine (v : Vocabulary) (line : List Char) (number : Nat) :
    Vocabulary × Except RuleError Rule :=
  let fields := (splitBars line).map trim
  match fields with
  | lhs :: source :: target :: rest =>
    if 1 < rest.length then (v, .error (.fieldCount number fields.length))
    else if !isLhs lhs then
      (v, .error (.lhsNotNonterminal number (String.ofList lhs)))
    else
      let (v, symbols) := v.internAll ((words source).map String.ofList)
      if symbols.isEmpty then (v, .error (.emptySource number))
      else
        let (v, lhs) := v.intern (String.ofList lhs)
        let target := (words target).map String.ofList
        (v, .ok ⟨lhs, symbols, String.intercalate " " target⟩)
  | _ => (v, .error (.fieldCount number fields.length))

/-- Reads a rule line on its own. Where it is refused, the vocabulary is not
given back. -/
def ofLine (v : Vocabulary) (line : List Char) (number : Nat) :
    Except RuleError (Vocabulary × Rule) :=
  let (v, rule) := readLine v line number
  rule.map (v, ·)

/-- A line that holds no rule: it is blank or a comment. -/
def isSkipped (line : List Char) : Bool :=
  match trim line with
  | [] => true
  | c :: _ => c == '#'

/-- The lines that hold rules, each with its number among all lines, which
are numbered from `first` on. -/
def numbered (first : Nat) (lines : List (List Char)) :
    List (Nat × List Char) :=
  (lines.zipIdx first).filterMap fun (line, number) =>
    if isSkipped line then none else some (number, line)

/-- Reads numbered lines from first to last and stops at the first that is
refused. -/
def ofLines (v : Vocabulary) : List (Nat × List Char) →
    Vocabulary × Except RuleError (List Rule)
  | [] => (v, .ok [])
  | (number, line) :: rest =>
    match readLine v line number with
    | (v, .error e) => (v, .error e)
    | (v, .ok rule) =>
      let (v, rules) := ofLines v rest
      (v, rules.map (rule :: ·))

/-- Reads all rules of a text. -/
def ofText (v : Vocabulary) (text : String) :
    Vocabulary × Except RuleError (List Rule) :=
  ofLines v (numbered 1 (lines text.toList))

end Rule

end LatticeParsing
