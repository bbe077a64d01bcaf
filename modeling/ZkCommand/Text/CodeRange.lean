/-!
# ZkCommand.Text.CodeRange

**Closed ranges of code points**, the form in which the tables of character properties are kept.
-/

namespace ZkCommand.Text

/-- The first and the last code point of a range; both belong to it. -/
abbrev CodeRange := Nat × Nat

/-- Some range of the table holds the character. -/
def inRanges (table : List CodeRange) (c : Char) : Bool :=
  table.any fun range => decide (range.1 ≤ c.toNat) && decide (c.toNat ≤ range.2)

end ZkCommand.Text
