/-
Grammars.

A grammar is drafted by adding rules, one by one or by the text, and then
finished. Finishing fixes how edge labels accept input symbols: a label
accepts itself, or, in a grammar whose terminal labels are patterns, the
words that its spelling asks for. The spellings are those of the time of
finishing; a terminal label without one accepts nothing.

The charts know a grammar only through three questions: where its rules
start, where a symbol leads from a position, and over which spans rules may
apply.
-/
import LatticeParsing.Rule.Text
import LatticeParsing.Grammar.Position
import LatticeParsing.Pattern.LabelPattern

namespace LatticeParsing

-- ============================================================= options

/-- The span limit of a grammar that sets none itself. -/
def defaultSpanLimit : Nat := 20

/-- What is fixed when a grammar is drafted. -/
structure GrammarOptions where
  /-- The length of the longest path that a rule may cover; `none` sets no
  limit. -/
  spanLimit : Option Nat := some defaultSpanLimit
  /-- Whether terminal labels are patterns. -/
  labelPatterns : Bool := false
  deriving DecidableEq, Repr

-- ============================================================ matching

/-- How edge labels accept input symbols. -/
inductive Matching where
  /-- Each label accepts itself. -/
  | exact
  /-- Nonterminals accept themselves; a terminal accepts the words that the
  table has for it. -/
  | patterns (table : List (Symbol × (String → Bool)))

namespace Matching

/-- Whether a label accepts an input symbol, whose spelling is looked up in
`v`. -/
def accepts (v : Vocabulary) (m : Matching) (label input : Symbol) : Bool :=
  match m with
  | exact => label == input
  | patterns table =>
    if input.isNonterminal then label == input
    else match table.lookup label, v.word? input with
      | some asks, some w => asks w
      | _, _ => false

/-- What the terminals of a list ask for that have a spelling, read as
patterns by an engine. -/
def ofLabels (E : PatternEngine) (v : Vocabulary) (labels : List Symbol) :
    Matching :=
  patterns ((labels.filter (!·.isNonterminal)).filterMap fun s =>
    (v.word? s).map fun w => (s, (LabelPattern.ofLabel E w).accepts))

end Matching

-- ============================================================ grammars

/-- A finished grammar. -/
structure Grammar where
  options : GrammarOptions
  root : Trie
  matching : Matching
  ruleCount : Nat

/-- A grammar as the charts see it. -/
structure GrammarView where
  /-- The position at which all rules start. -/
  root? : Option Position
  /-- The position that a symbol leads to. -/
  follow? : Position → Symbol → Option Position
  /-- Whether rules may apply over the span from `i` to `j`, whose shortest
  path has `pathLength` arcs. -/
  allows : (i j pathLength : Nat) → Bool

namespace Grammar

/-- Whether rules may apply over a span: the path is within the limit. Empty
spans are always allowed. -/
def allows (g : Grammar) (i j pathLength : Nat) : Bool :=
  match g.options.spanLimit with
  | none => true
  | some limit => i == j || pathLength ≤ limit

/-- The position that a symbol leads to. -/
def follow? (g : Grammar) (v : Vocabulary) (p : Position) (s : Symbol) :
    Option Position :=
  p.follow? fun label => g.matching.accepts v label s

/-- The grammar as the charts see it while the spellings are those of
`v`. -/
def view (g : Grammar) (v : Vocabulary) : GrammarView where
  root? := some (.root g.root)
  follow? := g.follow? v
  allows := g.allows

end Grammar

-- ============================================================== drafts

/-- A grammar that still takes rules. Its number tells its rules from those
of other grammars. -/
structure GrammarDraft where
  number : Nat
  options : GrammarOptions
  trie : Trie := .empty
  ruleCount : Nat := 0

namespace GrammarDraft

/-- Adds a rule. -/
def add (d : GrammarDraft) (r : Rule) : GrammarDraft :=
  { d with
    trie := d.trie.insert ⟨⟨d.number, d.ruleCount⟩, r⟩
    ruleCount := d.ruleCount + 1 }

/-- Adds the rules of a text, or none of them if a line is refused. The
vocabulary keeps what has been interned in either case. -/
def load (d : GrammarDraft) (v : Vocabulary) (text : String) :
    Vocabulary × GrammarDraft × Except RuleError Unit :=
  match Rule.ofText v text with
  | (v, .error e) => (v, d, .error e)
  | (v, .ok rules) => (v, rules.foldl add d, .ok ())

/-- The draft with the rules of a text, unless that is refused. -/
def addText (d : GrammarDraft) (v : Vocabulary) (text : String) :
    Vocabulary × Except RuleError GrammarDraft :=
  let (v, d, done) := d.load v text
  (v, done.map fun _ => d)

/-- The finished grammar. If its labels are patterns, an engine reads
them. -/
def finish (d : GrammarDraft) (v : Vocabulary)
    (E : PatternEngine := .standard) : Grammar where
  options := d.options
  root := d.trie
  matching :=
    if d.options.labelPatterns then .ofLabels E v d.trie.allLabels.eraseDups
    else .exact
  ruleCount := d.ruleCount

end GrammarDraft

/-- The grammar with the rules of a text. -/
def Grammar.ofText (number : Nat) (options : GrammarOptions)
    (v : Vocabulary) (text : String) (E : PatternEngine := .standard) :
    Vocabulary × Except RuleError Grammar :=
  let (v, draft) := GrammarDraft.addText ⟨number, options, .empty, 0⟩ v text
  (v, draft.map fun d => d.finish v E)

end LatticeParsing
