/-
  Membership of a code point in a table of closed ranges.
-/

namespace StyleBudget

/-- Some range of the table holds the number; both ends of a range count. -/
def inRanges (table : List (Nat × Nat)) (n : Nat) : Bool :=
  table.any fun range => range.1 ≤ n && n ≤ range.2

end StyleBudget
