/-
Synchronous rules.

A rule has a left-hand side, a source side, which is matched against the
input, and a target side, which is only carried along. A rule that is listed
in a grammar has an identity of its own: a grammar may list the same rule
twice, and the two do not count as one.
-/
import LatticeParsing.Symbol.Vocabulary

namespace LatticeParsing

/-- A synchronous rule. -/
structure Rule where
  lhs : Symbol
  source : List Symbol
  target : String
  deriving DecidableEq, Repr

namespace Rule

/-- The number of nonterminals on the source side. -/
def arity (r : Rule) : Nat := r.source.countP Symbol.isNonterminal

/-- A rule whose source side is a single nonterminal. -/
def isUnary (r : Rule) : Bool := r.source.length == 1 && r.arity == 1

/-- The source and the target side, as reports show them. -/
def display (v : Vocabulary) (r : Rule) : String :=
  String.intercalate " " (r.source.map v.display) ++ " ||| " ++ r.target

end Rule

/-- The identity of a listed rule: the number of its grammar and its place
in the order in which that grammar took its rules. -/
structure RuleId where
  grammar : Nat
  place : Nat
  deriving DecidableEq, Hashable, Repr

/-- A rule listed in a grammar. -/
structure ListedRule where
  id : RuleId
  rule : Rule
  deriving DecidableEq, Repr

end LatticeParsing
