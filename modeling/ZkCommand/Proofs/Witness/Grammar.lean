import Mathlib.Algebra.Group.Nat.Defs
import ZkCommand.Witness.Decode

/-!
# ZkCommand.Proofs.Witness.Grammar

**The grammar of witness dumps**, as concrete syntax trees. A syntax tree keeps everything that the
writer of a dump decides: the case of every letter, the white space, leading zeros, whether a comma
ends a list of bytes. A value stands under the type that can hold it, so a syntax tree has no value
out of range. `source` is the text of a piece of syntax and `primitive` what it denotes.
-/

namespace ZkCommand.Witness.Grammar

open Text

/-! ### White space and words -/

/-- Any amount of white space. -/
structure Gap where
  chars : List Char
  blank : ∀ c ∈ chars, isBlank c = true

/-- A word in letters of either case. -/
structure Spelling (word : String) where
  chars : List Char
  spells : chars.map Char.toLower = word.toList

/-- The small letter of a character in the name of a type: there the long `ſ` is an `s`. -/
def tagLetter (c : Char) : Char := if c = 'ſ' then 's' else c.toLower

/-- The name of a type in letters of either case. -/
structure TagSpelling (tag : Tag) where
  chars : List Char
  spells : chars.map tagLetter = tag.word

/-! ### Values -/

/-- A numeral below a bound. Leading zeros are allowed. -/
structure Numeral (bound : Nat) where
  digits : List Char
  isNumeral : Decimal.isNumeral digits = true
  below : Decimal.read digits < bound

/-- The number that a numeral stands for. -/
def Numeral.value {bound : Nat} (n : Numeral bound) : Nat := Decimal.read n.digits

/-- An entry of a list of bytes. -/
structure Entry where
  before : Gap
  byte : Numeral (2 ^ 8)
  after : Gap

/-- The text of an entry. -/
def Entry.source (e : Entry) : List Char := e.before.chars ++ e.byte.digits ++ e.after.chars

/-- What is between the brackets of a list of bytes: white space, or entries with commas between
them. After the last entry there may be a comma and white space. -/
inductive Entries
  | none (inside : Gap)
  | some (first : Entry) (others : List Entry) (trailing : Option Gap)

/-- The text of a trailing comma and the white space after it. -/
def trailingSource : Option Gap → List Char
  | .none => []
  | .some gap => ',' :: gap.chars

/-- The text between the brackets of a list of bytes. -/
def Entries.source : Entries → List Char
  | .none inside => inside.chars
  | .some first others trailing =>
      first.source ++ others.flatMap (fun e => ',' :: e.source) ++ trailingSource trailing

/-- The bytes of a list, in order. -/
def Entries.bytes : Entries → List Nat
  | .none _ => []
  | .some first others _ => first.byte.value :: others.map fun e => e.byte.value

/-- A number by its bytes, the most significant byte first. -/
def bigEndian (bytes : List Nat) : Nat := bytes.foldl (fun number byte => number * 2 ^ 8 + byte) 0

/-- A value of a type. -/
inductive Value : Tag → Type
  | yes (word : Spelling "true") : Value .bool
  | no (word : Spelling "false") : Value .bool
  | word32 (number : Numeral (2 ^ 32)) : Value .u32
  | word64 (number : Numeral (2 ^ 64)) : Value .u64
  | bytes (entries : Entries) (narrow : 8 * entries.bytes.length < 2 ^ 32) : Value .bytes

/-- The text of a value. -/
def Value.source : {tag : Tag} → Value tag → List Char
  | _, .yes word => word.chars
  | _, .no word => word.chars
  | _, .word32 number => number.digits
  | _, .word64 number => number.digits
  | _, .bytes entries _ => '[' :: (entries.source ++ [']'])

/-- What a value denotes. -/
def Value.primitive : {tag : Tag} → Value tag → Primitive
  | _, .yes _ => ⟨1, 1⟩
  | _, .no _ => ⟨0, 1⟩
  | _, .word32 number => ⟨number.value, 32⟩
  | _, .word64 number => ⟨number.value, 64⟩
  | _, .bytes entries _ => ⟨bigEndian entries.bytes, 8 * entries.bytes.length⟩

/-! ### Tokens -/

/-- A token without its value: its type, the word `val`, and the white space between the pieces. -/
structure Frame (tag : Tag) where
  name : TagSpelling tag
  beforeBrace : Gap
  afterBrace : Gap
  val : Spelling "val"
  beforeColon : Gap
  afterColon : Gap
  afterValue : Gap

/-- The text of the braces around a value. -/
def Frame.braces {tag : Tag} (f : Frame tag) (value : List Char) : List Char :=
  f.beforeBrace.chars ++ '\x7b' :: (f.afterBrace.chars ++ (f.val.chars
    ++ (f.beforeColon.chars ++ ':' :: (f.afterColon.chars ++ (value
      ++ (f.afterValue.chars ++ ['\x7d']))))))

/-- The text of a token around the text of its value. -/
def Frame.source {tag : Tag} (f : Frame tag) (value : List Char) : List Char :=
  f.name.chars ++ f.braces value

/-- A token. -/
structure Token where
  tag : Tag
  frame : Frame tag
  value : Value tag

/-- The text of a token. -/
def Token.source (t : Token) : List Char := t.frame.source t.value.source

/-! ### Dumps -/

/-- A dump: tokens with white space before, between and after them. -/
inductive Dump
  | finish (gap : Gap)
  | more (gap : Gap) (token : Token) (rest : Dump)

/-- The text of a dump. -/
def Dump.source : Dump → List Char
  | .finish gap => gap.chars
  | .more gap token rest => gap.chars ++ (token.source ++ rest.source)

/-- The primitives of a dump, in order. -/
def Dump.primitives : Dump → List Primitive
  | .finish _ => []
  | .more _ token rest => token.value.primitive :: rest.primitives

end ZkCommand.Witness.Grammar
