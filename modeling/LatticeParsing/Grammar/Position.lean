/-
Positions in a prefix tree.

Reading a symbol leads from a node over every edge whose label accepts the
symbol. Where labels are patterns there can be several, so a position is a
list of at least one place in the tree, in the order in which the edges
were found. A position at one place is that place; a position at several is
merged, and counts as new every time it is reached. `NestedPosition` keeps how
the places were merged.
-/
import LatticeParsing.Grammar.Trie

namespace LatticeParsing

-- ====================================================== sorted symbols

namespace Symbol

/-- Inserts a symbol into an ascending list that does not hold it. -/
def insertSorted (s : Symbol) : List Symbol → List Symbol
  | [] => [s]
  | t :: rest =>
    if s < t then s :: t :: rest
    else if s = t then t :: rest
    else t :: insertSorted s rest

/-- The symbols of a list in ascending order, each once. -/
def sorted (symbols : List Symbol) : List Symbol :=
  symbols.foldr insertSorted []

/-- The nonterminals of a list in ascending order, each once. -/
def sortedNonterminals (symbols : List Symbol) : List Symbol :=
  sorted (symbols.filter isNonterminal)

/-- Whether a symbol stands in an ascending list. At each step half of the
list is left out. -/
def containsSorted (symbols : List Symbol) (s : Symbol) : Bool :=
  let half := symbols.length / 2
  if h : half < symbols.length then
    if s = symbols[half] then true
    else if s < symbols[half] then containsSorted (symbols.take half) s
    else containsSorted (symbols.drop (half + 1)) s
  else false
termination_by symbols.length
decreasing_by
  · simp only [List.length_take]
    omega
  · simp only [List.length_drop]
    omega

end Symbol

-- =============================================================== places

/-- A node of a prefix tree together with the labels that lead to it. -/
structure Place where
  path : List Symbol
  node : Trie

/-- The places behind the edges with an accepted label. -/
def Place.follow (accepts : Symbol → Bool) (p : Place) : List Place :=
  p.node.edges.filterMap fun (s, t) =>
    if accepts s then some ⟨p.path ++ [s], t⟩ else none

-- ============================================================ positions

/-- One or more places. -/
structure Position where
  first : Place
  others : List Place

namespace Position

/-- The position at the root of a tree. -/
def root (t : Trie) : Position := ⟨⟨[], t⟩, []⟩

/-- The position at the places of a list, if there are any. -/
def ofPlaces? : List Place → Option Position
  | [] => none
  | p :: ps => some ⟨p, ps⟩

/-- The places of a position. -/
def places (p : Position) : List Place := p.first :: p.others

/-- Whether a position is at several places. -/
def isMerged (p : Position) : Bool := !p.others.isEmpty

/-- The position that is reached over all edges with an accepted label. -/
def follow? (p : Position) (accepts : Symbol → Bool) : Option Position :=
  ofPlaces? (p.places.flatMap (Place.follow accepts))

/-- Whether an edge leaves the position. -/
def hasExtensions (p : Position) : Bool :=
  p.places.any fun q => !q.node.edges.isEmpty

/-- The labels of the edges that leave the position, ascending. -/
def labels (p : Position) : List Symbol :=
  Symbol.sorted (p.places.flatMap fun q => q.node.labels)

/-- The rules that end at the position, place by place. -/
def rules (p : Position) : List ListedRule :=
  p.places.flatMap fun q => q.node.rules

/-- Whether some rule ends at the position. -/
def hasRules (p : Position) : Bool := !p.rules.isEmpty

/-- The nonterminals among the labels, ascending. At a single place they
stand before the terminals; at several they are sorted afresh. -/
def nonterminals (p : Position) : List Symbol :=
  if p.isMerged then Symbol.sortedNonterminals p.labels
  else p.first.node.labels.takeWhile Symbol.isNonterminal

/-- Whether two positions of one tree are the same. A merged position is
the same as no other. -/
def sameAs (p q : Position) : Bool :=
  !p.isMerged && !q.isMerged && p.first.path == q.first.path

end Position

end LatticeParsing
