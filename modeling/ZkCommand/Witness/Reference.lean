import ZkCommand.Witness.Decode

/-!
# ZkCommand.Witness.Reference

**Reference sequences.** A reference is a list of pairs of a value and a width. Both may be
numbers or strings of digits, and a string may end in the suffix of big integers.
-/

namespace ZkCommand.Witness

/-- A text without the suffix `n`, however often it is written. -/
def dropSuffix (s : List Char) : List Char := (s.reverse.dropWhile (· = 'n')).reverse

/-- The number of a text that has to be a numeral. -/
def referenceNumeral (text : List Char) : Except ReferenceCause Nat :=
  if Decimal.isNumeral text then .ok (Decimal.read text)
  else .error (.notUnsigned (String.ofList text))

/-- A component of a pair. -/
def referenceInteger : Tree → Except ReferenceCause Nat
  | .num literal => referenceNumeral literal.toList
  | .str text => referenceNumeral (dropSuffix text.toList)
  | t => .error (.notInteger t.kind)

/-- The primitive of a pair. The value is read before the width. -/
def referenceEntry : Tree → Except ReferenceCause Primitive
  | .list [value, width] => do
      let value ← referenceInteger value
      let width ← referenceInteger width
      if width < widthLimit then .ok ⟨value, width⟩ else .error .widthTooLarge
  | .list items => .error (.wrongLength items.length)
  | t => .error (.notPair t.kind)

/-- The primitives of the entries from an index on. -/
def referenceFrom (index : Nat) : List Tree → Except Fault (List Primitive)
  | [] => .ok []
  | t :: rest => do
      let first ← (referenceEntry t).mapError (.reference index)
      let others ← referenceFrom (index + 1) rest
      .ok (first :: others)

/-- The primitives of a reference. -/
def ofReference : Tree → Except Fault (List Primitive)
  | .list items => referenceFrom 0 items
  | t => .error (.reference 0 (.notList t.kind))

end ZkCommand.Witness
