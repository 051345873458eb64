/-! Sets of code points as tables of closed ranges, in ascending order. -/

namespace MemoryTrial.Text

/-- Closed ranges of code points, each by its first and its last one. -/
abbrev CodeRanges := List (Nat × Nat)

namespace CodeRanges

/-- Whether a code point is in one of the ranges. -/
def covers (rs : CodeRanges) (n : Nat) : Bool := rs.any fun r => r.1 ≤ n && n ≤ r.2

end CodeRanges

end MemoryTrial.Text
