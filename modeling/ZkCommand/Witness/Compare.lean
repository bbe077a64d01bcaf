import ZkCommand.Witness.Primitive

/-!
# ZkCommand.Witness.Compare

**Comparing two sequences** position by position, as far as both go. Primitives are equal if both
their values and their widths are.
-/

namespace ZkCommand.Witness

/-- A position at which two sequences differ. -/
structure Mismatch where
  index : Nat
  decoded : Primitive
  reference : Primitive
  deriving DecidableEq, Repr

/-- The result of a comparison. -/
structure Report where
  decodedLength : Nat
  referenceLength : Nat
  mismatches : List Mismatch
  deriving DecidableEq, Repr

/-- The positions from an index on at which two sequences differ. -/
def mismatchesFrom (index : Nat) : List Primitive → List Primitive → List Mismatch
  | d :: ds, r :: rs =>
      if d = r then mismatchesFrom (index + 1) ds rs
      else ⟨index, d, r⟩ :: mismatchesFrom (index + 1) ds rs
  | _, _ => []

/-- The comparison of a decoded sequence with a reference. -/
def compare (decoded reference : List Primitive) : Report :=
  ⟨decoded.length, reference.length, mismatchesFrom 0 decoded reference⟩

namespace Report

/-- The sequences have different lengths. -/
def lengthMismatch (r : Report) : Bool := r.decodedLength != r.referenceLength

/-- The number of positions compared. -/
def compared (r : Report) : Nat := min r.decodedLength r.referenceLength

/-- The sequences have the same length and agree everywhere. -/
def isMatch (r : Report) : Bool := !r.lengthMismatch && r.mismatches.isEmpty

/-! ### Text -/

/-- The three lines of a mismatch. -/
def mismatchLines (m : Mismatch) : String :=
  "Index " ++ Decimal.text m.index ++ ":\n  decoded   = " ++ m.decoded.display
    ++ "\n  reference = " ++ m.reference.display ++ "\n"

/-- The text of a report. -/
def display (r : Report) : String :=
  let lengths :=
    if r.lengthMismatch then
      "Length mismatch: " ++ Decimal.text r.decodedLength ++ " vs "
        ++ Decimal.text r.referenceLength ++ "\n"
    else ""
  let body :=
    if r.mismatches.isEmpty then
      "No mismatches over " ++ Decimal.text r.compared ++ " compared entries"
    else
      Decimal.text r.mismatches.length ++ " mismatches:\n"
        ++ String.join (r.mismatches.map mismatchLines)
  lengths ++ body

/-- The line of a comparison in a log. -/
def line (r : Report) : String :=
  "INFO compared witness decoded=" ++ Decimal.text r.decodedLength ++ " reference="
    ++ Decimal.text r.referenceLength ++ " mismatches=" ++ Decimal.text r.mismatches.length

end Report

end ZkCommand.Witness
