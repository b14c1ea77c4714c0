/-
Symbols and their spellings, looked up both ways.

A table has maps that lead from spellings to symbols, and arrays that lead
back. Grammar symbols are looked up under their spelling without an index, and
so are input words, unless they are spelled like nonterminals: these have a
map of their own, but share the numbers of terminals with the rest.

A vocabulary is the two arrays alone and looks spellings up by searching
them.
-/
import LatticeParsing.Symbol.Vocabulary
import Mathlib.Data.List.Basic

namespace LatticeParsing

/-- The symbols that have been met. The terminal `n + 1` is spelled
`terminals[n]`, the nonterminal `-(n + 1)` is spelled `nonterminals[n]`. -/
structure SymbolTable where
  ids : Std.HashMap String Symbol := ∅
  /-- Input words that are spelled like nonterminals. -/
  bracketedWords : Std.HashMap String Symbol := ∅
  terminals : Array String := #[]
  nonterminals : Array String := #[]

namespace SymbolTable

/-- The grammar symbol with exactly this spelling. -/
def find? (t : SymbolTable) (w : String) : Option Symbol := t.ids[w]?

/-- The spelling of a symbol. -/
def word? (t : SymbolTable) (s : Symbol) : Option String :=
  let spellings := if s.isNonterminal then t.nonterminals else t.terminals
  match s.natAbs with
  | 0 => none
  | n + 1 => spellings[n]?

/-- How many spellings the maps hold. -/
def size (t : SymbolTable) : Nat := t.ids.size + t.bracketedWords.size

/-- The number of a spelling. It is looked up once more, as others may have
entered it since, and a new one becomes the next symbol of its kind. -/
def enter (t : SymbolTable) (w : String) : SymbolTable × Symbol :=
  match t.ids[w]? with
  | some s => (t, s)
  | none =>
    if Label.isNonterminal w then
      let nonterminals := t.nonterminals.push w
      let s : Symbol := -(nonterminals.size : Int)
      ({ t with ids := t.ids.insert w s, nonterminals }, s)
    else
      let terminals := t.terminals.push w
      let s : Symbol := terminals.size
      ({ t with ids := t.ids.insert w s, terminals }, s)

/-- The number of a grammar symbol, found by its spelling without an index. -/
def intern (t : SymbolTable) (w : String) : SymbolTable × Symbol :=
  let w := if Label.isNonterminal w then Label.base w else w
  match t.find? w with
  | some s => (t, s)
  | none => t.enter w

/-- The number of an input word. A new word becomes the next terminal. -/
def internWord (t : SymbolTable) (w : String) : SymbolTable × Symbol :=
  if Label.isNonterminal w then
    match t.bracketedWords[w]? with
    | some s => (t, s)
    | none =>
      let terminals := t.terminals.push w
      let s : Symbol := terminals.size
      ({ t with
        bracketedWords := t.bracketedWords.insert w s, terminals }, s)
  else t.intern w

end SymbolTable

end LatticeParsing
