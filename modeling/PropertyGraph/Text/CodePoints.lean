/-! Sets of characters, as ranges of code points with both ends. -/

namespace PropertyGraph

structure CodePoints where
  ranges : List (Nat × Nat)

def CodePoints.contains (s : CodePoints) (c : Char) : Bool :=
  s.ranges.any fun (first, last) => first ≤ c.toNat && c.toNat ≤ last

end PropertyGraph
