/-
Symbols and the table of their spellings.

Grammar symbols and input words are numbers. Nonterminals count down from
-1 and terminals up from 1, each in the order in which they are first met,
so the sign of a symbol tells the two apart.

A grammar symbol is interned under its spelling without an index, and it is
a nonterminal when it is spelled like one. An input word is always a
terminal: one that is spelled like a nonterminal gets a number of its own,
which no grammar symbol shares.

A vocabulary has the spellings alone and searches them. `SymbolTable` looks
them up in maps, with the same answers.
-/
import LatticeParsing.Symbol.Label

namespace LatticeParsing

/-- The number of a grammar symbol or an input word. -/
abbrev Symbol := Int

/-- True of the numbers of nonterminals. -/
def Symbol.isNonterminal (s : Symbol) : Bool := s < 0

theorem Symbol.isNonterminal_eq_true {s : Symbol} :
    s.isNonterminal = true ↔ s < 0 :=
  decide_eq_true_iff

theorem Symbol.isNonterminal_eq_false {s : Symbol} :
    s.isNonterminal = false ↔ 0 ≤ s :=
  decide_eq_false_iff_not.trans Int.not_lt

/-- The spellings of the symbols that have been met. The terminal `n + 1`
is spelled `terminals[n]`, the nonterminal `-(n + 1)` is spelled
`nonterminals[n]`. Words spelled like nonterminals stand among the
terminals and are the only such spellings there. -/
structure Vocabulary where
  terminals : Array String := #[]
  nonterminals : Array String := #[]
  deriving DecidableEq, Repr

namespace Vocabulary

-- ============================================================= look-up

/-- The terminal with this spelling. -/
def terminal? (v : Vocabulary) (w : String) : Option Symbol :=
  (v.terminals.idxOf? w).map fun n => (n : Int) + 1

/-- The nonterminal with this spelling. -/
def nonterminal? (v : Vocabulary) (w : String) : Option Symbol :=
  (v.nonterminals.idxOf? w).map fun n => -((n : Int) + 1)

/-- The grammar symbol with exactly this spelling. No symbol is spelled
with an index. -/
def find? (v : Vocabulary) (w : String) : Option Symbol :=
  if Label.isNonterminal w then v.nonterminal? w else v.terminal? w

/-- The spelling of a symbol. -/
def word? (v : Vocabulary) (s : Symbol) : Option String :=
  match s with
  | .ofNat 0 => none
  | .ofNat (n + 1) => v.terminals[n]?
  | .negSucc n => v.nonterminals[n]?

/-- The spelling of a symbol; its number after a number sign if it has
none. -/
def display (v : Vocabulary) (s : Symbol) : String :=
  (v.word? s).getD ("#" ++ toString s)

/-- How many symbols have been met. -/
def size (v : Vocabulary) : Nat := v.terminals.size + v.nonterminals.size

-- =========================================================== interning

/-- The number of an input word. A new word becomes the next terminal. -/
def internWord (v : Vocabulary) (w : String) : Vocabulary × Symbol :=
  match v.terminal? w with
  | some s => (v, s)
  | none => ({ v with terminals := v.terminals.push w }, v.terminals.size + 1)

/-- The number of a grammar symbol, found by its spelling without an index.
A new one becomes the next symbol of its kind. -/
def intern (v : Vocabulary) (w : String) : Vocabulary × Symbol :=
  if Label.isNonterminal w then
    let w := Label.base w
    match v.nonterminal? w with
    | some s => (v, s)
    | none =>
      ({ v with nonterminals := v.nonterminals.push w },
        -((v.nonterminals.size : Int) + 1))
  else v.internWord w

/-- The numbers of grammar symbols, interned from left to right. -/
def internAll (v : Vocabulary) : List String → Vocabulary × List Symbol
  | [] => (v, [])
  | w :: ws =>
    let (v, s) := v.intern w
    let (v, ss) := internAll v ws
    (v, s :: ss)

/-- The numbers of input words, interned from left to right. -/
def internWords (v : Vocabulary) : List String → Vocabulary × List Symbol
  | [] => (v, [])
  | w :: ws =>
    let (v, s) := v.internWord w
    let (v, ss) := internWords v ws
    (v, s :: ss)

end Vocabulary

end LatticeParsing
