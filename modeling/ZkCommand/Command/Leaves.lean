import ZkCommand.Base58.Check
import ZkCommand.Fp
import ZkCommand.Shape

/-!
# ZkCommand.Command.Leaves

**Terminal values of a command.** Keys, permission levels, signs, ranges and texts, each with the
payload that stands for it where a value is absent.
-/

namespace ZkCommand

/-! ### Keys and networks -/

/-- A public key: an address that is passed on as it is, or a compressed curve point. -/
inductive PublicKey
  | address (text : String)
  | point (x : Fp) (isOdd : Bool)
  deriving DecidableEq, Repr

/-- The key of no account. -/
def PublicKey.zero : PublicKey := .point Fp.zero false

/-- The network that a command is for. -/
inductive Network
  | mainnet
  | testnet
  deriving DecidableEq, Repr

/-- The name of a network. -/
def Network.name : Network → String
  | .mainnet => "mainnet"
  | .testnet => "testnet"

/-- The hash of an action sequence. -/
structure ActionState where
  hash : Fp
  deriving DecidableEq, Repr

/-- The hash of the empty action sequence. -/
def ActionState.empty : ActionState :=
  ⟨⟨25079927036070901246064867767436987657692091363973573142121686150614948079097, by decide⟩⟩

/-! ### Permission levels -/

/-- What an action on an account has to be authorized with. -/
inductive Auth
  | none
  | either
  | proof
  | signature
  | impossible
  | both
  deriving DecidableEq, Repr, Inhabited

/-- The label of a level. -/
def Auth.label : Auth → String
  | .none => "None"
  | .either => "Either"
  | .proof => "Proof"
  | .signature => "Signature"
  | .impossible => "Impossible"
  | .both => "Both"

/-- All levels. -/
def Auth.all : List Auth := [.none, .either, .proof, .signature, .impossible, .both]

/-- The level with a label. -/
def Auth.ofLabel? (label : String) : Option Auth := Auth.all.find? fun auth => auth.label = label

/-! ### Amounts -/

/-- The sign of a balance change. -/
inductive Sign
  | positive
  | negative
  deriving DecidableEq, Repr

/-- The label of a sign. -/
def Sign.label : Sign → String
  | .positive => "Positive"
  | .negative => "Negative"

/-- One or minus one. -/
def Sign.factor : Sign → Int
  | .positive => 1
  | .negative => -1

/-- An amount of 64 bits and its sign. -/
structure BalanceChange where
  magnitude : BitVec 64
  sgn : Sign
  deriving DecidableEq, Repr

/-- An inclusive range of unsigned integers of a width. -/
structure Range (width : Nat) where
  lower : BitVec width
  upper : BitVec width
  deriving DecidableEq, Repr

/-! ### Texts -/

/-- The greatest length of a token symbol in bytes. -/
def TokenSymbol.maxSize : Nat := 6

/-- A token symbol. -/
structure TokenSymbol where
  text : String
  fits : text.utf8ByteSize ≤ TokenSymbol.maxSize
  deriving DecidableEq, Repr

/-- The address of a program's source. -/
structure Uri where
  text : String
  deriving DecidableEq, Repr

/-! ### Payloads of absent values -/

instance : Vacant Fp := ⟨Fp.zero⟩
instance : Vacant Bool := ⟨false⟩
instance {width : Nat} : Vacant (BitVec width) := ⟨0⟩
instance : Vacant PublicKey := ⟨PublicKey.zero⟩
instance : Vacant ActionState := ⟨ActionState.empty⟩
instance : Vacant TokenSymbol := ⟨⟨"", by decide⟩⟩
instance : Vacant Uri := ⟨⟨""⟩⟩

/-- An absent range is the range of all integers of its width. -/
instance {width : Nat} : Vacant (Range width) := ⟨⟨0, BitVec.allOnes width⟩⟩

end ZkCommand
