import ZkCommand.Command.Record
import ZkCommand.Schema.Preconditions
import ZkCommand.Schema.Update

/-!
# ZkCommand.Schema.Command

**Documents of commands**: the fee payer, the account updates in their order, the memo and, in
the proper variant, the expected hashes.
-/

namespace ZkCommand.Schema

open Node

/-! ### Fee payer -/

/-- The keys of a fee payer and of an account update. -/
def signedKeys : List String := ["body", "authorization"]

/-- The keys of a fee payer's body. -/
def feePayerBodyKeys : List String := ["publicKey", "fee", "validUntil", "nonce"]

/-- The body of a fee payer. -/
def feePayerBody (shape : Shape) (n : Node) : Walk FeePayerBody := do
  n.noteUnknown feePayerBodyKeys
  let publicKey ← n.requiredLeaf "publicKey" Leaf.publicKey
  let fee ← n.requiredLeaf "fee" (Leaf.word 64)
  let validUntil ← n.optionalLeaf shape "validUntil" (Leaf.word 32)
  let nonce ← n.requiredLeaf "nonce" (Leaf.word 32)
  pure { publicKey, fee, validUntil, nonce }

/-- A fee payer. -/
def feePayer (shape : Shape) (n : Node) : Walk FeePayer := do
  n.noteUnknown signedKeys
  let body ← n.within "body" (feePayerBody shape)
  let authorization ← n.requiredLeaf "authorization" Leaf.string
  pure { body, authorization }

/-! ### Account updates -/

/-- The keys of a balance change. -/
def balanceChangeKeys : List String := ["magnitude", "sgn"]

/-- A balance change. -/
def balanceChange (n : Node) : Walk BalanceChange := do
  n.noteUnknown balanceChangeKeys
  let magnitude ← n.requiredLeaf "magnitude" (Leaf.word 64)
  let sgn ← n.within "sgn" sign
  pure { magnitude, sgn }

/-- The keys of a token's use. -/
def mayUseTokenKeys : List String := ["parentsOwnToken", "inheritFromParent"]

/-- The keys of an authorization's kind. -/
def authorizationKindKeys : List String := ["isSigned", "isProved", "verificationKeyHash"]

/-- Lists of field elements, both levels in order. -/
def fieldLists (n : Node) : Walk (List (List Fp)) :=
  n.each fun inner => inner.each fun element => element.leaf Leaf.field

/-- The keys of an account update's body. -/
def accountUpdateBodyKeys : List String :=
  ["publicKey", "tokenId", "update", "balanceChange", "incrementNonce", "events", "actions",
   "callData", "callDepth", "preconditions", "useFullCommitment", "implicitAccountCreationFee",
   "mayUseToken", "authorizationKind"]

/-- The body of an account update. The balance change is read first, and the three inner blocks
have to be there before anything else is read. -/
def accountUpdateBody (shape : Shape) (n : Node) : Walk AccountUpdateBody := do
  n.noteUnknown accountUpdateBodyKeys
  let balanceChange ← n.within "balanceChange" balanceChange
  let tokenUse ← n.required "mayUseToken"
  tokenUse.noteUnknown mayUseTokenKeys
  let kind ← n.required "authorizationKind"
  kind.noteUnknown authorizationKindKeys
  let publicKey ← n.requiredLeaf "publicKey" Leaf.publicKey
  let tokenId ← n.requiredLeaf "tokenId" Leaf.tokenId
  let update ← n.within "update" (update shape)
  let incrementNonce ← n.requiredLeaf "incrementNonce" Leaf.bool
  let events ← n.within "events" fieldLists
  let actions ← n.within "actions" fieldLists
  let callData ← n.requiredLeaf "callData" Leaf.field
  let callDepth ← n.requiredLeaf "callDepth" (Leaf.word 32)
  let preconditions ← n.within "preconditions" (preconditions shape)
  let useFullCommitment ← n.requiredLeaf "useFullCommitment" Leaf.bool
  let implicitAccountCreationFee ← n.requiredLeaf "implicitAccountCreationFee" Leaf.bool
  let parentsOwnToken ← tokenUse.requiredLeaf "parentsOwnToken" Leaf.bool
  let inheritFromParent ← tokenUse.requiredLeaf "inheritFromParent" Leaf.bool
  let isSigned ← kind.requiredLeaf "isSigned" Leaf.bool
  let isProved ← kind.requiredLeaf "isProved" Leaf.bool
  let verificationKeyHash ← kind.requiredLeaf "verificationKeyHash" Leaf.field
  pure {
    publicKey, tokenId, update, balanceChange, incrementNonce, events, actions, callData,
    callDepth, preconditions, useFullCommitment, implicitAccountCreationFee
    mayUseToken := { parentsOwnToken, inheritFromParent }
    authorizationKind := { isSigned, isProved, verificationKeyHash } }

/-- An account update. Its authorization is known to the schema and never read. -/
def accountUpdate (shape : Shape) (n : Node) : Walk AccountUpdate := do
  n.noteUnknown signedKeys
  let body ← n.within "body" (accountUpdateBody shape)
  pure { body, authorization := .absent }

/-! ### Documents -/

/-- The hash expected under a key; one that is not given is zero. -/
def expectedHash (n : Node) (key : String) : Walk Fp := n.leafOr key Fp.zero Leaf.field

/-- The expected hashes of a document. -/
def expectedHashes (n : Node) : Walk ExpectedHashes := do
  let memoHash ← expectedHash n "expectedMemoHash"
  let feePayerHash ← expectedHash n "expectedFeePayerHash"
  let accountUpdatesCommitment ← expectedHash n "expectedAccountUpdatesCommitment"
  let fullCommitment ← expectedHash n "expectedFullCommitment"
  pure { memoHash, feePayerHash, accountUpdatesCommitment, fullCommitment }

/-- The keys of a document. -/
def documentKeys : List String :=
  ["feePayer", "accountUpdates", "memo", "expectedMemoHash", "expectedFeePayerHash",
   "expectedAccountUpdatesCommitment", "expectedFullCommitment"]

/-- The record of a document. -/
def record (config : Config) (n : Node) : Walk Record := do
  n.noteUnknown documentKeys
  let feePayer ← n.within "feePayer" (feePayer config.shape)
  let accountUpdates ←
    n.within "accountUpdates" fun list => list.each (accountUpdate config.shape)
  let memo ← n.requiredLeaf "memo" Leaf.string
  let expected ← match config.variant with
    | .proper => expectedHashes n
    | .simple => pure .zero
  Walk.emit (.transcoded config.name config.variant accountUpdates.length)
  pure {
    name := config.name
    command := { feePayer, accountUpdates, memo, network := config.network }
    expected }

end ZkCommand.Schema
