/-
Costs.

A cost is a binary floating-point number of 32 bits. Costs are added along a
path from left to right and compared to find the cheapest. The least of two
costs passes over a NaN, and where neither is less it is the first.
-/
namespace LatticeParsing

/-- The cost of an arc or a path. -/
abbrev Cost := Float32

namespace Cost

/-- No cost. -/
def zero : Cost := Float32.ofBits 0

/-- More than every finite cost. -/
def infinite : Cost := Float32.ofBits 0x7f800000

/-- The lesser of two costs. -/
def least (a b : Cost) : Cost :=
  if a.isNaN then b else if b < a then b else a

end Cost

end LatticeParsing
