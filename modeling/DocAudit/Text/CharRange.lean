/-!
# Tables of character ranges

A class of characters given by a standard is kept as a list of ranges of code points, both ends
included.
-/

namespace DocAudit.Text.CharRange

/-- The code of the character lies in one of the ranges. -/
def mem (ranges : List (Nat × Nat)) (c : Char) : Bool :=
  ranges.any fun range => range.1 ≤ c.toNat && c.toNat ≤ range.2

end DocAudit.Text.CharRange
