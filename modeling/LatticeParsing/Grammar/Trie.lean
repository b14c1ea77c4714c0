/-
Prefix trees over source sides.

The edges that leave a node are labelled by symbols in ascending order, so
nonterminals come before terminals. A rule stands at the node that its
source side leads to; rules with the same source side stand there in the
order in which they were inserted.
-/
import LatticeParsing.Rule.Basic

namespace LatticeParsing

/-- A node with its rules and the edges that leave it. -/
inductive Trie where
  | node (rules : List ListedRule) (edges : List (Symbol × Trie))

namespace Trie

/-- A node without rules and edges. -/
def empty : Trie := node [] []

/-- The rules at a node. -/
def rules : Trie → List ListedRule
  | node rs _ => rs

/-- The edges that leave a node. -/
def edges : Trie → List (Symbol × Trie)
  | node _ es => es

/-- The labels of the edges that leave a node, ascending. -/
def labels (t : Trie) : List Symbol := t.edges.map (·.1)

-- =========================================================== insertion

/-- Changes the node behind the edge labelled `s`, which is made if it is
missing. -/
def growEdge (s : Symbol) (grow : Trie → Trie) :
    List (Symbol × Trie) → List (Symbol × Trie)
  | [] => [(s, grow empty)]
  | (t, child) :: rest =>
    if s < t then (s, grow empty) :: (t, child) :: rest
    else if s = t then (t, grow child) :: rest
    else (t, child) :: growEdge s grow rest

/-- Inserts a rule at the node to which `source` leads. -/
def insertAt (r : ListedRule) : List Symbol → Trie → Trie
  | [], node rs es => node (rs ++ [r]) es
  | s :: source, node rs es => node rs (growEdge s (insertAt r source) es)

/-- Inserts a rule under its source side. -/
def insert (t : Trie) (r : ListedRule) : Trie := insertAt r r.rule.source t

-- ================================================================ folds

mutual

/-- The number of rules at a node and below it. -/
def ruleCount : Trie → Nat
  | node rs es => rs.length + edgesRuleCount es

/-- The number of rules behind edges. -/
def edgesRuleCount : List (Symbol × Trie) → Nat
  | [] => 0
  | (_, t) :: rest => t.ruleCount + edgesRuleCount rest

end

mutual

/-- The labels of all edges at a node and below it. -/
def allLabels : Trie → List Symbol
  | node _ es => edgesLabels es

/-- The labels of edges and of all edges below them. -/
def edgesLabels : List (Symbol × Trie) → List Symbol
  | [] => []
  | (s, t) :: rest => s :: (t.allLabels ++ edgesLabels rest)

end

end Trie

end LatticeParsing
