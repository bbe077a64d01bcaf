import ZkCommand.Decimal

/-!
# ZkCommand.Fp

**The prime field.** An element is a natural number below the modulus, and the bound is part of
the type. Elements have a decimal text and a little-endian payload of thirty-two bytes; reading
either refuses a number that is not below the modulus instead of reducing it.
-/

namespace ZkCommand

/-- The order of the field. -/
def Fp.modulus : Nat :=
  28948022309329048855892746252171976963363056481941560715954676764349967630337

/-- An element of the field. -/
structure Fp where
  val : Nat
  val_lt : val < Fp.modulus
  deriving DecidableEq, Repr

namespace Fp

/-- The number of bytes of a payload. -/
def payloadSize : Nat := 32

/-- Why something does not denote an element. -/
inductive Fault
  | notDecimal (text : String)
  | overflow (value : Nat)
  | badPayloadLength (length : Nat)
  deriving DecidableEq, Repr

/-- The wording of a failure. -/
def Fault.message : Fault → String
  | .notDecimal text => "'" ++ text ++ "' is not a decimal integer"
  | .overflow value => "value " ++ Decimal.text value ++ " is not below the field modulus"
  | .badPayloadLength length => "field payload must be 32 bytes, got " ++ Decimal.text length

/-- The neutral element of addition. -/
def zero : Fp := ⟨0, by decide⟩

instance : Inhabited Fp := ⟨zero⟩

instance : Ord Fp := ⟨fun a b => compare a.val b.val⟩

/-- A number below the modulus as an element. -/
def ofNat (n : Nat) : Except Fault Fp :=
  if h : n < modulus then .ok ⟨n, h⟩ else .error (.overflow n)

/-- A word of 64 bits as an element. Every word is below the modulus. -/
def ofWord (w : BitVec 64) : Fp := ⟨w.toNat, Nat.lt_trans w.isLt (by decide)⟩

/-! ### Decimal text -/

/-- The numeral of an element, without leading zeros. -/
def decimal (x : Fp) : String := Decimal.text x.val

/-- The element of a numeral; leading zeros are accepted. -/
def ofDecimal (text : String) : Except Fault Fp :=
  if Decimal.isNumeral text.toList then ofNat (Decimal.read text.toList)
  else .error (.notDecimal text)

/-! ### Payload -/

/-- The little-endian bytes of an element, filled up with zeros. -/
def payload (x : Fp) : List UInt8 :=
  let bytes := (Radix.digits 256 x.val).map UInt8.ofNat
  bytes ++ List.replicate (payloadSize - bytes.length) 0

/-- The element of thirty-two little-endian bytes. -/
def ofPayload (bytes : List UInt8) : Except Fault Fp :=
  if bytes.length = payloadSize then ofNat (Radix.value 256 (bytes.map UInt8.toNat))
  else .error (.badPayloadLength bytes.length)

end Fp

end ZkCommand
