/-
How symbols are spelled.

A nonterminal is spelled between square brackets with something in between,
`[X]`. A rule may tell several of its nonterminals apart by an index,
`[X,1]`; the index is no part of the symbol, and `base` is the spelling
without it.
-/
import LatticeParsing.Unicode.Property

namespace LatticeParsing.Label

/-- The text between the brackets of a nonterminal's spelling. -/
def inside? : List Char → Option (List Char)
  | '[' :: rest =>
    if 1 < rest.length && rest.getLast? == some ']' then some rest.dropLast
    else none
  | _ => none

/-- Whether a word is spelled like a nonterminal. -/
def isNonterminal (w : String) : Bool := (inside? w.toList).isSome

/-- The text before the index: not empty, free of commas and closing
brackets, and followed by a comma and at least one decimal digit, which end
the text. -/
def stem? (body : List Char) : Option (List Char) :=
  let stem := body.takeWhile fun c => c != ']' && c != ','
  match body.dropWhile fun c => c != ']' && c != ',' with
  | ',' :: index =>
    if !stem.isEmpty && !index.isEmpty && index.all Unicode.isDecimalDigit
    then some stem
    else none
  | _ => none

/-- The spelling without an index. A word that does not carry one is kept
as it is. -/
def base (w : String) : String :=
  match (inside? w.toList).bind stem? with
  | some stem => String.ofList ('[' :: stem ++ [']'])
  | none => w

end LatticeParsing.Label
