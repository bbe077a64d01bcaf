import ZkCommand.Command.Leaves
import ZkCommand.Leaf.Fault

/-!
# ZkCommand.Leaf.Read

**Reading leaves.** One function for each kind of terminal value, from a document value to the
leaf or the cause why it is none. Integers are read from their digits, so nothing is ever rounded,
and a number and the string of the same digits are the same integer.
-/

namespace ZkCommand.Leaf

/-- A reader of a leaf. -/
abbrev Reader (α : Type) := Tree → Except Fault α

/-! ### Integers -/

/-- A minus sign before at least one digit and nothing else. -/
def isNegativeNumeral : List Char → Bool
  | '-' :: digits => Decimal.isNumeral digits
  | _ => false

/-- The digits of an unsigned integer: a number that is written with digits alone, or a string of
digits. A number without a sign that has more than digits has a point or an exponent. -/
def numeral : Reader String
  | .num literal =>
      if literal.toList.head? = some '-' then .error (.negative literal)
      else if Decimal.isNumeral literal.toList then .ok literal
      else .error (.fractional literal)
  | .str text =>
      if Decimal.isNumeral text.toList then .ok text
      else if isNegativeNumeral text.toList then .error (.negative text)
      else .error (.notAnInteger text)
  | t => .error (.wrongShape .integer t.kind)

/-- An unsigned integer of a width. -/
def word (width : Nat) : Reader (BitVec width) := fun t => do
  let digits ← numeral t
  if Decimal.read digits.toList < Nat.pow 2 width then
    .ok (BitVec.ofNat width (Decimal.read digits.toList))
  else .error (.outOfRange digits width)

/-! ### Field elements -/

/-- A field element; null is zero. -/
def field : Reader Fp
  | .null => .ok Fp.zero
  | t => do
      let digits ← numeral t
      (Fp.ofDecimal digits).mapError .field

/-- The payload of a hash without its leading version byte, which is only there if it is longer
by one byte. -/
def hashPayload : List UInt8 → List UInt8
  | [] => []
  | b :: rest => if b = 1 ∧ rest.length = Fp.payloadSize then rest else b :: rest

/-- The field element of a base 58 text. -/
def hashText [Base58.Checksum] (version : UInt8) (text : String) : Except Fault Fp := do
  let payload ← (Base58.decodeCheck version text).mapError .base58
  (Fp.ofPayload (hashPayload payload)).mapError .field

/-- A field element that may also be written in base 58. A string of digits is an integer. -/
def hash [Base58.Checksum] (version : UInt8) : Reader Fp
  | .str text =>
      if Decimal.isNumeral text.toList then field (.str text) else hashText version text
  | t => field t

/-- A token identifier. -/
def tokenId : Reader Fp := hash Base58.tokenIdVersion

/-! ### Flags, keys and labels -/

/-- A truth value. -/
def bool : Reader Bool
  | .bool b => .ok b
  | t => .error (.wrongShape .boolean t.kind)

/-- The value under a key that has to be there. -/
def member (key : String) (t : Tree) : Except Fault Tree :=
  match t.get? key with
  | some child => .ok child
  | none => .error (.missingKey key)

/-- A public key; null is the key of no account. Both coordinates of a point have to be there
before either is read. -/
def publicKey : Reader PublicKey
  | .null => .ok PublicKey.zero
  | .str address => .ok (.address address)
  | .map entries => do
      let x ← member "x" (.map entries)
      let isOdd ← member "isOdd" (.map entries)
      let x ← field x
      let isOdd ← bool isOdd
      .ok (.point x isOdd)
  | t => .error (.wrongShape .publicKey t.kind)

/-- A value read from a label, and the label itself if it is not a known one. -/
structure Labelled (α : Type) where
  value : α
  unrecognised : Option String
  deriving DecidableEq, Repr

/-- A permission level. An unknown label counts as no requirement, and so does null, as the
empty label. -/
def auth : Reader (Labelled Auth)
  | .str label =>
      match Auth.ofLabel? label with
      | some level => .ok ⟨level, none⟩
      | none => .ok ⟨.none, some label⟩
  | .null => .ok ⟨.none, some ""⟩
  | t => .error (.wrongShape .authLabel t.kind)

/-- A sign. An unknown label counts as negative. -/
def sign : Reader (Labelled Sign)
  | .str label =>
      if label = Sign.positive.label then .ok ⟨.positive, none⟩
      else if label = Sign.negative.label then .ok ⟨.negative, none⟩
      else .ok ⟨.negative, some label⟩
  | t => .error (.wrongShape .signLabel t.kind)

/-! ### Texts -/

/-- A text. -/
def string : Reader String
  | .str text => .ok text
  | t => .error (.wrongShape .string t.kind)

/-- A token symbol. -/
def tokenSymbol : Reader TokenSymbol := fun t => do
  let text ← string t
  if fits : text.utf8ByteSize ≤ TokenSymbol.maxSize then .ok ⟨text, fits⟩
  else .error (.tooLong text.utf8ByteSize TokenSymbol.maxSize)

/-- The address of a program's source. -/
def uri : Reader Uri := fun t => do
  let text ← string t
  .ok ⟨text⟩

/-- The hash of an action sequence. -/
def actionState : Reader ActionState := fun t => do
  let hash ← field t
  .ok ⟨hash⟩

/-! ### Optional values -/

/-- An optional value of a shape: null and a value that is not there are absent. -/
def optional {α : Type} [Vacant α] (shape : Shape) (read : Reader α) :
    Option Tree → Except Fault (Optional α)
  | none => .ok shape.absent
  | some .null => .ok shape.absent
  | some t => do
      let value ← read t
      .ok (shape.present value)

end ZkCommand.Leaf
