import ZkCommand.Text.Parsed
import ZkCommand.Text.Utf8

/-!
# ZkCommand.Json.Scan

**Scanning.** The results of the JSON readers. A reader takes a value off the front of a text
and returns the rest, with a bound on its length that makes every loop over it end. A failure
has a cause and the number of bytes that were left, from which the place in the whole text is
computed once, at the end.
-/

namespace ZkCommand.Json

open Text

/-- Why a text is not a JSON value. -/
inductive Cause
  | endOfValue
  | endOfList
  | endOfMapping
  | endOfString
  | expectedWord
  | expectedValue
  | tooDeep
  | invalidNumber
  | trailingComma
  | expectedListEnd
  | expectedMappingEnd
  | expectedColon
  | keyNotString
  | controlCharacter
  | invalidEscape
  | loneSurrogate
  | unfinishedSurrogate
  | trailingCharacters
  /-- A value that is no string stands where the text of a number is due. -/
  | noNumberText (found : String)
  deriving DecidableEq, Repr

/-- The wording of a cause. -/
def Cause.message : Cause → String
  | .endOfValue => "EOF while parsing a value"
  | .endOfList => "EOF while parsing a list"
  | .endOfMapping => "EOF while parsing an object"
  | .endOfString => "EOF while parsing a string"
  | .expectedWord => "expected ident"
  | .expectedValue => "expected value"
  | .tooDeep => "recursion limit exceeded"
  | .invalidNumber => "invalid number"
  | .trailingComma => "trailing comma"
  | .expectedListEnd => "expected \x60,\x60 or \x60]\x60"
  | .expectedMappingEnd => "expected \x60,\x60 or \x60\x7d\x60"
  | .expectedColon => "expected \x60:\x60"
  | .keyNotString => "key must be a string"
  | .controlCharacter => "control character (\\u0000-\\u001F) found while parsing a string"
  | .invalidEscape => "invalid escape"
  | .loneSurrogate => "lone leading surrogate in hex escape"
  | .unfinishedSurrogate => "unexpected end of hex escape"
  | .trailingCharacters => "trailing characters"
  | .noNumberText found => "invalid type: " ++ found ++ ", expected string containing a number"

/-- A cause, the number of bytes that were left when it was found, and whether the next of them had
been looked at. A number may be written as a text of its own inside the text that is read: a failure
in it is about that text alone, and names it. -/
structure Failure where
  cause : Cause
  left : Nat
  ahead : Bool
  text : Option (List Char)
  deriving DecidableEq, Repr

namespace Failure

/-- The number of bytes behind a failure: a byte that has been looked at counts as read. -/
def unread (f : Failure) : Nat := if f.ahead then f.left - 1 else f.left

/-- A failure found by looking at the next byte, if there is one. -/
def peek (cause : Cause) (s : List Char) : Failure := ⟨cause, Utf8.size s, true, none⟩

/-- A failure found by taking so many bytes of the rest `s` of the text. -/
def taking (count : Nat) (cause : Cause) (s : List Char) : Failure :=
  ⟨cause, Utf8.size s - count, false, none⟩

/-- A failure found before the rest `s` of the text. -/
def before (cause : Cause) (s : List Char) : Failure := taking 0 cause s

/-- A failure at the end of the text. -/
def atEnd (cause : Cause) : Failure := ⟨cause, 0, false, none⟩

end Failure

/-- A reader that consumes at least one character. -/
abbrev Reader (α : Type) := (s : List Char) → Except Failure (Parsed α s.length)

/-! ### White space -/

/-- The four white space characters between tokens. -/
def isSpace (c : Char) : Bool := c = ' ' || c = '\n' || c = '\t' || c = '\r'

/-- The text from the first character that is not white space. -/
def skipSpace (s : List Char) : Parsed Unit (s.length + 1) :=
  ⟨(), s.dropWhile isSpace, Nat.lt_succ_of_le (List.dropWhile_sublist _).length_le⟩

end ZkCommand.Json
