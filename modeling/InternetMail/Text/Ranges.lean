/-!
# Ranges of code points

Properties of characters are given as tables of ranges, in increasing order and apart from one
another.
-/

namespace InternetMail

/-- Some code points, as ranges with both ends included. -/
abbrev Ranges := List (Nat × Nat)

/-- Whether the code point of `c` lies in one of the ranges. -/
def Ranges.holds (rs : Ranges) (c : Char) : Bool :=
  rs.any fun r ↦ r.1 ≤ c.toNat && c.toNat ≤ r.2

end InternetMail
