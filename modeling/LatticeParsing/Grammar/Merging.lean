/-
Positions as they are merged.

A symbol leads from a place over every edge with an accepted label. Where
there are several such edges, the positions behind them become the parts of a
merged one, and since parts are followed one by one, a part can be merged
itself. A merged position answers by asking its parts, but the rules it
collects once, when it is made.

A `Position` is what is left of this when all parts are taken apart: the
places of a nested position, from left to right.
-/
import LatticeParsing.Grammar.Basic

namespace LatticeParsing

/-- Rules that end at one position. Their arity and source side are those of
the first of them; where places have been merged, the source sides of others
may be spelled differently. -/
structure RuleCollection where
  rules : List ListedRule
  arity : Nat
  source : List Symbol

/-- The collection of the rules of a list, if there are any. -/
def RuleCollection.ofRules? : List ListedRule → Option RuleCollection
  | [] => none
  | r :: rs => some ⟨r :: rs, r.rule.arity, r.rule.source⟩

/-- A place, or several positions merged into one together with the rules
that end at them. -/
inductive NestedPosition where
  | place (p : Place)
  | merged (parts : List NestedPosition) (collected : Option RuleCollection)

namespace NestedPosition

/-- The rules that end at a position, if any do. -/
def collection? : NestedPosition → Option RuleCollection
  | place p => RuleCollection.ofRules? p.node.rules
  | merged _ collected => collected

/-- Whether a position is merged. -/
def isMerged : NestedPosition → Bool
  | place _ => false
  | merged .. => true

/-- Positions merged into one, which collects their rules. -/
def ofParts (parts : List NestedPosition) : NestedPosition :=
  merged parts <| RuleCollection.ofRules? <|
    (parts.filterMap collection?).flatMap (·.rules)

/-- The positions of a list as one, if there are any. A single one is not
merged. -/
def merge? : List NestedPosition → Option NestedPosition
  | [] => none
  | [p] => some p
  | parts => some (ofParts parts)

/-- The position that is reached over all edges with an accepted label. -/
def follow? (accepts : Symbol → Bool) : NestedPosition → Option NestedPosition
  | place p => merge? ((p.follow accepts).map place)
  | merged parts _ => merge? ((parts.map (follow? accepts)).filterMap id)

/-- Whether an edge leaves the position. -/
def hasExtensions : NestedPosition → Bool
  | place p => !p.node.edges.isEmpty
  | merged parts _ => (parts.map hasExtensions).any id

/-- The labels of the edges that leave the position. Those of the parts are
sorted afresh at every level. -/
def labels : NestedPosition → List Symbol
  | place p => p.node.labels
  | merged parts _ => Symbol.sorted (parts.flatMap labels)

/-- The nonterminals among the labels, ascending. A place has them listed. -/
def nonterminals (p : NestedPosition) : List Symbol :=
  match p with
  | place p => p.node.labels.takeWhile Symbol.isNonterminal
  | merged .. => Symbol.sortedNonterminals p.labels

/-- The places of a position, part by part. -/
def places : NestedPosition → List Place
  | place p => [p]
  | merged parts _ => parts.flatMap places

end NestedPosition

/-- The nested position that symbols lead to from the root of a grammar, while
the spellings are those of `v`. -/
def Grammar.nestedWalk? (g : Grammar) (v : Vocabulary)
    (symbols : List Symbol) : Option NestedPosition :=
  symbols.foldlM
    (fun p s => p.follow? fun label => g.matching.accepts v label s)
    (.place ⟨[], g.root⟩)

end LatticeParsing
