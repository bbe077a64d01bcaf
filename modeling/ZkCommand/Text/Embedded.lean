import ZkCommand.Text.Hex

/-!
# ZkCommand.Text.Embedded

**Text inside a double-quoted literal.** Backslash, quote and the three common control
characters get short escapes, the other control characters the escape with a braced code point,
and everything else stands for itself. The escaped text has no control character left.
-/

namespace ZkCommand.Text

/-- A control character, general category Cc. -/
def isControl (c : Char) : Bool :=
  decide (c.toNat < 0x20) || (decide (0x7f ≤ c.toNat) && decide (c.toNat < 0xa0))

/-- The spelling of one character. -/
def embedChar (c : Char) : List Char :=
  if c = '\\' then ['\\', '\\']
  else if c = '"' then ['\\', '"']
  else if c = '\n' then ['\\', 'n']
  else if c = '\r' then ['\\', 'r']
  else if c = '\t' then ['\\', 't']
  else if isControl c then ['\\', 'u', '\x7b'] ++ Hex.ofCode c.toNat ++ ['\x7d']
  else [c]

/-- The spelling of a text between two quotes. -/
def embed (s : List Char) : List Char := s.flatMap embedChar

/-- The spelling of a text, as a text. -/
def embedded (s : String) : String := String.ofList (embed s.toList)

end ZkCommand.Text
