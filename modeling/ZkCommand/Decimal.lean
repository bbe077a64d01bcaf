import ZkCommand.Radix

/-!
# ZkCommand.Decimal

**Decimal text of natural numbers.** `write` gives the shortest numeral, `0` for zero; `read`
takes any digits, leading zeros included. Digits are the ten ASCII ones, and `isNumeral` is the
test that every reader of an integer in this library makes first.
-/

namespace ZkCommand.Decimal

/-- The character of a digit below ten. -/
def digitChar (d : Nat) : Char := Char.ofNat (48 + d)

/-- The value of a digit character. -/
def digitValue (c : Char) : Nat := c.toNat - 48

/-- At least one character, and only ASCII digits. -/
def isNumeral (s : List Char) : Bool := !s.isEmpty && s.all Char.isDigit

/-- The numeral of a number, without leading zeros. -/
def write (n : Nat) : List Char :=
  if n = 0 then ['0'] else ((Radix.digits 10 n).map digitChar).reverse

/-- The number that a numeral stands for. -/
def read (s : List Char) : Nat := Radix.value 10 (s.reverse.map digitValue)

/-- The numeral of a number as a text. -/
def text (n : Nat) : String := String.ofList (write n)

end ZkCommand.Decimal
