/-
Matching a pattern against a word.

The matcher follows the pattern. It takes a set of places in the word to the
set of places where stretches end that begin in the set and are spanned by
the pattern. Places are kept in ascending order, so equal sets are equal
lists. A repetition applies the matcher again and again and stops when the
set no longer changes; a word of `n` characters has `n + 1` places, so an
unbounded repetition needs no more than `n + 1` rounds.
-/
import LatticeParsing.Pattern.Basic

namespace LatticeParsing

namespace Pattern

-- ============================================================== places

/-- Places in a word, ascending. -/
abbrev Places := List Nat

/-- The places up to `n` that lie in one of two sets. -/
def Places.union (n : Nat) (s t : Places) : Places :=
  (List.range (n + 1)).filter fun i => s.contains i || t.contains i

/-- Applies `f` exactly `k` times, and stops early at a set that `f` does
not change. -/
def iterate (f : Places → Places) : Nat → Places → Places
  | 0, s => s
  | k + 1, s =>
    let next := f s
    if next = s then s else iterate f k next

/-- The places up to `n` within reach of at most `k` applications of `f`. It
stops early once a round finds no new place. -/
def reach (n : Nat) (f : Places → Places) : Nat → Places → Places
  | 0, s => s
  | k + 1, s =>
    let next := Places.union n s (f s)
    if next = s then s else reach n f k next

-- ============================================================ matching

/-- The character before a place. -/
def before (w : List Char) (i : Nat) : Option Char :=
  if i = 0 then none else w[i - 1]?

/-- Whether the characters `u` stand at a place. -/
def standsAt (w u : List Char) (i : Nat) : Bool := u.isPrefixOf (w.drop i)

/-- Where stretches of `w` end that begin at the places of a set and are
spanned by the pattern. -/
def ends (w : List Char) : Pattern → Places → Places
  | empty, s => s
  | literal u, s =>
    s.filterMap fun i => if standsAt w u i then some (i + u.length) else none
  | set c, s =>
    s.filterMap fun i =>
      if w[i]?.any fun d => c.contains d.toNat then some (i + 1) else none
  | anchor a, s => s.filter fun i => a.holds (before w i) w[i]?
  | group _ p, s => p.ends w s
  | cat p q, s => q.ends w (p.ends w s)
  | alt p q, s => Places.union w.length (p.ends w s) (q.ends w s)
  | times p min max _, s =>
    let rounds := match max with
      | none => w.length + 1
      | some m => m - min
    reach w.length (p.ends w) rounds (iterate (p.ends w) min s)

/-- Whether some stretch of the word is spanned by the pattern. -/
def search (p : Pattern) (w : List Char) : Bool :=
  !(p.ends w (List.range (w.length + 1))).isEmpty

end Pattern

end LatticeParsing
