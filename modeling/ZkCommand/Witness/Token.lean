import ZkCommand.Text.Blank
import ZkCommand.Text.DecimalDigit
import ZkCommand.Text.Parsed

/-!
# ZkCommand.Witness.Token

**Tokens of a witness dump.** A token is a type, and in braces the word `val`, a colon and a value,
with white space wherever two of these meet. Letters may be of either case, and the long `ſ`
counts as an `s`. A token is recognised by its form alone; whether its type can hold its value
is decided later.
-/

namespace ZkCommand.Witness

open Text

/-- The types of a token. -/
inductive Tag
  | bool
  | u32
  | u64
  | bytes
  deriving DecidableEq, Repr

/-- The name of a type, in small letters. -/
def Tag.word : Tag → List Char
  | .bool => ['b', 'o', 'o', 'l']
  | .u32 => ['u', '3', '2']
  | .u64 => ['u', '6', '4']
  | .bytes => ['b', 'y', 't', 'e', 's']

/-- The name of a type in messages. -/
def Tag.name : Tag → String
  | .bool => "BOOL"
  | .u32 => "U32"
  | .u64 => "U64"
  | .bytes => "BYTES"

/-- A type and a value as it is written. -/
structure Token where
  tag : Tag
  value : List Char
  deriving DecidableEq, Repr

/-! ### Pieces of a token -/

/-- The character `c` stands for the small letter or digit `letter`. -/
def foldsTo (letter c : Char) : Bool := c.toLower = letter || (letter = 's' && c = 'ſ')

/-- The characters that stand for a word, and what follows them. -/
def wordSpan : (word : List Char) → (s : List Char) → Option (Parsed (List Char) (s.length + 1))
  | [], s => some ⟨[], s, by simp⟩
  | _ :: _, [] => none
  | letter :: word, c :: s =>
      if foldsTo letter c then
        (wordSpan word s).map fun p =>
          ⟨c :: p.value, p.rest, by grind⟩
      else none

/-- The text from the first character that is not white space. -/
def skipBlank (s : List Char) : Parsed Unit (s.length + 1) :=
  ⟨(), s.dropWhile isBlank, Nat.lt_succ_of_le (List.dropWhile_sublist _).length_le⟩

/-- A character after white space. -/
def mark (c : Char) (s : List Char) : Option (Parsed Unit s.length) :=
  match skipBlank s with
  | ⟨_, [], _⟩ => none
  | ⟨_, d :: rest, short⟩ =>
      if d = c then some ⟨(), rest, length_lt_of_cons_lt_succ s d rest short⟩ else none

/-- The longest run of decimal digits of any script, at least one. -/
def digitSpan (s : List Char) : Option (Parsed (List Char) (s.length + 1)) :=
  if (s.takeWhile isDecimalDigit).isEmpty then none
  else some ⟨s.takeWhile isDecimalDigit, s.dropWhile isDecimalDigit,
    Nat.lt_succ_of_le (List.dropWhile_sublist _).length_le⟩

/-- The characters up to the first closing bracket, which is part of them. -/
def bracketTail : (s : List Char) → Option (Parsed (List Char) s.length)
  | [] => none
  | c :: s =>
      if c = ']' then some ⟨[c], s, by simp⟩
      else (bracketTail s).map fun p =>
        ⟨c :: p.value, p.rest, by grind⟩

/-- A list in brackets, whatever is between them. -/
def bracketSpan : (s : List Char) → Option (Parsed (List Char) (s.length + 1))
  | [] => none
  | c :: s =>
      if c = '[' then
        (bracketTail s).map fun p => ⟨c :: p.value, p.rest, by grind⟩
      else none

/-- A value: a truth value, digits, or a list in brackets. -/
def valueSpan (s : List Char) : Option (Parsed (List Char) (s.length + 1)) :=
  wordSpan ['t', 'r', 'u', 'e'] s <|> wordSpan ['f', 'a', 'l', 's', 'e'] s
    <|> digitSpan s <|> bracketSpan s

/-! ### Tokens -/

/-- The braces of a token with the value that they hold. -/
def body (s : List Char) : Option (Parsed (List Char) s.length) := do
  let opened ← mark '\x7b' s
  let val ← wordSpan ['v', 'a', 'l'] (skipBlank opened.rest).rest
  let colon ← mark ':' val.rest
  let value ← valueSpan (skipBlank colon.rest).rest
  let closed ← mark '\x7d' value.rest
  some ⟨value.value, closed.rest, by grind⟩

/-- A token of a type at the front of a text. -/
def Token.ofTag? (tag : Tag) (s : List Char) : Option (Parsed Token s.length) := do
  let name ← wordSpan tag.word s
  let value ← body name.rest
  some ⟨⟨tag, value.value⟩, value.rest, by grind⟩

/-- A token at the front of a text. -/
def Token.first? (s : List Char) : Option (Parsed Token s.length) :=
  Token.ofTag? .bool s <|> Token.ofTag? .u32 s <|> Token.ofTag? .u64 s <|> Token.ofTag? .bytes s

end ZkCommand.Witness
