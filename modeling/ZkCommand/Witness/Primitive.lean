import ZkCommand.Decimal

/-!
# ZkCommand.Witness.Primitive

**Primitives.** A witness is a sequence of unsigned values, each with its width in bits, whether
it comes from a dump or from a reference.
-/

namespace ZkCommand.Witness

/-- An unsigned value and its declared width in bits. -/
structure Primitive where
  value : Nat
  width : Nat
  deriving DecidableEq, Repr

/-- The text of a primitive. -/
def Primitive.display (p : Primitive) : String :=
  "[" ++ Decimal.text p.value ++ ", " ++ Decimal.text p.width ++ "]"

/-- Widths are numbers of 32 bits. -/
def widthLimit : Nat := Nat.pow 2 32

end ZkCommand.Witness
