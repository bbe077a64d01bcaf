/-!
# ZkCommand.Text.Hex

**Lowercase hexadecimal.** Bytes as pairs of digits, and the four-digit code of a control
character, which both escaping rules of this library use.
-/

namespace ZkCommand.Text.Hex

/-- The character of a digit below sixteen. -/
def digitChar (d : Nat) : Char :=
  if d < 10 then Char.ofNat (48 + d) else Char.ofNat (87 + d)

/-- The value of a hexadecimal digit in either case. -/
def digitValue? (c : Char) : Option Nat :=
  if c.isDigit then some (c.toNat - 48)
  else if 'a' ≤ c ∧ c ≤ 'f' then some (c.toNat - 87)
  else if 'A' ≤ c ∧ c ≤ 'F' then some (c.toNat - 55)
  else none

/-- The two digits of a byte. -/
def ofByte (b : UInt8) : List Char := [digitChar (b.toNat / 16), digitChar (b.toNat % 16)]

/-- The digits of a byte list. -/
def ofBytes (bytes : List UInt8) : List Char := bytes.flatMap ofByte

/-- The four digits of a code point below 2 ^ 16. -/
def ofCode (n : Nat) : List Char :=
  [digitChar (n / 4096 % 16), digitChar (n / 256 % 16), digitChar (n / 16 % 16),
   digitChar (n % 16)]

end ZkCommand.Text.Hex
