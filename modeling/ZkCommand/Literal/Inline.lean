import ZkCommand.Command.Record
import ZkCommand.Text.Embedded

/-!
# ZkCommand.Literal.Inline

**Values on one line of a struct literal.** Field elements are read from their digits, so that
none is lost; words are plain integers; texts are quoted and escaped.
-/

namespace ZkCommand.Literal

/-- Texts set off by a comma and a space. -/
def commaSeparated : List String → String
  | [] => ""
  | [s] => s
  | s :: rest => s ++ ", " ++ commaSeparated rest

/-- A vector on one line. -/
def inlineVector (items : List String) : String := "vec![" ++ commaSeparated items ++ "]"

/-- A truth value. -/
def bool (b : Bool) : String := if b then "true" else "false"

/-- An unsigned integer. -/
def word {width : Nat} (w : BitVec width) : String := Decimal.text w.toNat

/-- A text between quotes. -/
def quoted (text : String) : String := "\"" ++ Text.embedded text ++ "\""

/-- An element of the field as it is parsed. -/
def parsedElement (x : Fp) : String := "Fp::from_str(\"" ++ x.decimal ++ "\").unwrap()"

/-- A field element. -/
def element (x : Fp) : String := "Field(" ++ parsedElement x ++ ")"

/-- A public key. -/
def publicKey : PublicKey → String
  | .address text =>
      "PublicKey(CompressedPubKey::from_address(" ++ quoted text ++ ").unwrap())"
  | .point x isOdd =>
      "PublicKey(CompressedPubKey \x7b x: " ++ parsedElement x ++ ", is_odd: " ++ bool isOdd
        ++ " \x7d)"

/-- A range. -/
def range {width : Nat} (r : Range width) : String :=
  "RangeCondition \x7b lower: " ++ word r.lower ++ ", upper: " ++ word r.upper ++ " \x7d"

/-- A value that may be absent. -/
def optional {α : Type} (write : α → String) : Optional α → String
  | .tagged none => "None"
  | .tagged (some value) => "Some(" ++ write value ++ ")"
  | .flagged present payload =>
      "Flagged \x7b is_some: " ++ bool present ++ ", value: " ++ write payload ++ " \x7d"

/-- The state slots. -/
def slots (values : Slots) : String :=
  "[" ++ commaSeparated (values.toList.map (optional element)) ++ "]"

/-- The bytes of a text. -/
def textBytes (text : String) : String := quoted text ++ ".as_bytes().to_vec()"

/-- An owned text. -/
def ownedText (text : String) : String := quoted text ++ ".to_string()"

/-- A program's address. -/
def uri (u : Uri) : String := "ZkappUri(" ++ textBytes u.text ++ ")"

/-- A token symbol. -/
def tokenSymbol (s : TokenSymbol) : String := "TokenSymbol(" ++ textBytes s.text ++ ")"

/-- The hash of an action sequence. -/
def actionState (s : ActionState) : String := "ActionState(" ++ element s.hash ++ ")"

/-- A permission level. -/
def auth (level : Auth) : String := "AuthRequired::" ++ level.label

/-- A sign. -/
def sign : Sign → String
  | .positive => "1"
  | .negative => "-1"

/-- A network. -/
def network : Network → String
  | .mainnet => "NetworkId::MAINNET"
  | .testnet => "NetworkId::TESTNET"

end ZkCommand.Literal
