import ZkCommand.Radix

/-!
# ZkCommand.Base58.Basic

**Base58.** A byte list is read as one number, the most significant byte first, and written in
base 58 with an alphabet that leaves out the characters easily taken for one another. A number
does not show its leading zeros, so every leading zero byte becomes one leading `1`.
-/

namespace ZkCommand.Base58

/-- The fifty-eight digits in order of their values. -/
def alphabet : List Char :=
  "123456789ABCDEFGHJKLMNPQRSTUVWXYZabcdefghijkmnopqrstuvwxyz".toList

/-- The character of a digit. -/
def digitChar (d : Nat) : Char := alphabet.getD d '1'

/-- The value of a character, if it is a digit. -/
def digitValue? (c : Char) : Option Nat := alphabet.idxOf? c

/-- The base 58 text of a byte list. -/
def encode (bytes : List UInt8) : List Char :=
  let number := Radix.value 256 (bytes.reverse.map UInt8.toNat)
  List.replicate (bytes.takeWhile (· == 0)).length '1'
    ++ ((Radix.digits 58 number).map digitChar).reverse

/-- The bytes of a base 58 text; none if a character is no digit. -/
def decode? (s : List Char) : Option (List UInt8) :=
  match s.mapM digitValue? with
  | none => none
  | some digits =>
      let number := Radix.value 58 digits.reverse
      some (List.replicate (digits.takeWhile (· == 0)).length 0
        ++ ((Radix.digits 256 number).map UInt8.ofNat).reverse)

/-- Every digit is read back from its character. -/
theorem digitValue?_digitChar {d : Nat} (h : d < 58) : digitValue? (digitChar d) = some d := by
  have all : ∀ e ∈ List.range 58, digitValue? (digitChar e) = some e := by decide +kernel
  exact all d (List.mem_range.2 h)

end ZkCommand.Base58
