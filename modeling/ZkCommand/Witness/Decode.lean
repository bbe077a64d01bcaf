import ZkCommand.Radix
import ZkCommand.Text.Utf8
import ZkCommand.Text.WordChar
import ZkCommand.Tree
import ZkCommand.Witness.Primitive
import ZkCommand.Witness.Token

/-!
# ZkCommand.Witness.Decode

**Decoding a witness dump.** A dump is a sequence of tokens with nothing but white space around
them. The first place where neither white space nor a token goes on is an error; so is the first
token whose type cannot hold its value.
-/

namespace ZkCommand.Witness

open Text

/-! ### Failures -/

/-- Why an entry of a reference is not a primitive. -/
inductive ReferenceCause
  | notList (found : Tree.Kind)
  | notPair (found : Tree.Kind)
  | wrongLength (length : Nat)
  | notInteger (found : Tree.Kind)
  | notUnsigned (text : String)
  | widthTooLarge
  deriving DecidableEq, Repr

/-- The wording of a cause. -/
def ReferenceCause.message : ReferenceCause → String
  | .notList found => "expected a list of pairs, found " ++ found.name
  | .notPair found => "expected a pair, found " ++ found.name
  | .wrongLength length => "expected 2 components, found " ++ Decimal.text length
  | .notInteger found => "expected an integer, found " ++ found.name
  | .notUnsigned text => "'" ++ text ++ "' is not an unsigned integer"
  | .widthTooLarge => "width does not fit in 32 bits"

/-- Why a dump or a reference is not a sequence of primitives. Offsets count bytes. -/
inductive Fault
  | grammar (offset : Nat) (snippet : String)
  | valueOutOfRange (tag : Tag) (value : String)
  | byteOutOfRange (offset : Nat) (entry : String)
  | reference (index : Nat) (cause : ReferenceCause)
  deriving DecidableEq, Repr

/-- The wording of a failure. -/
def Fault.message : Fault → String
  | .grammar offset snippet =>
      "unexpected input at offset " ++ Decimal.text offset ++ ": '" ++ snippet ++ "'"
  | .valueOutOfRange tag value => tag.name ++ " cannot hold '" ++ value ++ "'"
  | .byteOutOfRange offset entry =>
      "byte entry '" ++ entry ++ "' at offset " ++ Decimal.text offset ++ " is not in 0..=255"
  | .reference index cause =>
      "reference entry " ++ Decimal.text index ++ ": " ++ cause.message

/-! ### Values -/

/-- A truth value, one bit wide. -/
def decodeBool (value : List Char) : Except Fault Primitive :=
  if value.map Char.toLower = "true".toList then .ok ⟨1, 1⟩
  else if value.map Char.toLower = "false".toList then .ok ⟨0, 1⟩
  else .error (.valueOutOfRange .bool (String.ofList value))

/-- An unsigned integer that fits its width. -/
def decodeUnsigned (tag : Tag) (width : Nat) (value : List Char) : Except Fault Primitive :=
  if Decimal.isNumeral value ∧ Decimal.read value < Nat.pow 2 width then
    .ok ⟨Decimal.read value, width⟩
  else .error (.valueOutOfRange tag (String.ofList value))

/-- A text cut at its commas. -/
def splitCommas : List Char → List (List Char)
  | [] => [[]]
  | c :: s =>
      if c = ',' then [] :: splitCommas s
      else
        match splitCommas s with
        | [] => [[c]]
        | part :: parts => (c :: part) :: parts

/-- The entries between two brackets, without white space around them. An empty last entry does
not count, so that a comma may end the list. -/
def byteEntries (inner : List Char) : List (List Char) :=
  let entries := (splitCommas inner).map trim
  if entries.getLast? = some [] then entries.dropLast else entries

/-- The byte of an entry, in a token at an offset. -/
def decodeByte (offset : Nat) (entry : List Char) : Except Fault Nat :=
  if Decimal.isNumeral entry ∧ Decimal.read entry < 256 then .ok (Decimal.read entry)
  else .error (.byteOutOfRange offset (String.ofList entry))

/-- What is between the brackets of a list. -/
def bracketed? : List Char → Option (List Char)
  | '[' :: s => if s.getLast? = some ']' then some s.dropLast else none
  | _ => none

/-- The bytes of a list as one number, the most significant byte first. -/
def decodeBytes (offset : Nat) (value : List Char) : Except Fault Primitive :=
  match bracketed? value with
  | none => .error (.valueOutOfRange .bytes (String.ofList value))
  | some inner => do
      let bytes ← (byteEntries inner).mapM (decodeByte offset)
      if 8 * bytes.length < widthLimit then
        .ok ⟨Radix.value 256 bytes.reverse, 8 * bytes.length⟩
      else .error (.valueOutOfRange .bytes (String.ofList value))

/-- The primitive of a token at an offset. -/
def Token.decode (offset : Nat) (t : Token) : Except Fault Primitive :=
  match t.tag with
  | .bool => decodeBool t.value
  | .u32 => decodeUnsigned .u32 32 t.value
  | .u64 => decodeUnsigned .u64 64 t.value
  | .bytes => decodeBytes offset t.value

/-! ### Dumps -/

/-- The greatest length of a snippet in characters. -/
def snippetLength : Nat := 24

/-- The first characters of a text up to a token that starts a word, at most `count` of them. The
first character follows `previous`. -/
def gap (count : Nat) (previous : Char) : List Char → List Char
  | [] => []
  | c :: s =>
      match count with
      | 0 => []
      | count + 1 =>
          if !isWordChar previous && (Token.first? (c :: s)).isSome then []
          else c :: gap count c s

/-- The start of what cannot be decoded: its first character and the gap after it. -/
def snippet : List Char → List Char
  | [] => []
  | c :: s => c :: gap (snippetLength - 1) c s

/-- The primitives of the rest of a dump of `total` bytes. -/
def decodeFrom (total : Nat) (s : List Char) : Except Fault (List Primitive) :=
  match skipBlank s with
  | ⟨_, [], _⟩ => .ok []
  | ⟨_, c :: r, _within⟩ =>
      let offset := total - Utf8.size (c :: r)
      match Token.first? (c :: r) with
      | none => .error (.grammar offset (String.ofList (snippet (c :: r))))
      | some token => do
          let first ← token.value.decode offset
          let others ← decodeFrom total token.rest
          .ok (first :: others)
termination_by s.length
decreasing_by grind

/-- The primitives of a dump, in order. -/
def decode (text : String) : Except Fault (List Primitive) :=
  decodeFrom (Utf8.size text.toList) text.toList

end ZkCommand.Witness
