import ZkCommand.Walk.Node

/-!
# ZkCommand.Schema.Update

**The update block**: state slots, delegate, verification key, permissions, texts, timing and the
voting target. Every walk names the keys it knows in a table, notices the others, and visits the
known ones in a fixed order.
-/

namespace ZkCommand.Schema

open Node

/-! ### Verification key -/

/-- The keys of a verification key. -/
def verificationKeyKeys : List String := ["data", "hash"]

/-- A verification key. Missing data are empty and a missing hash is zero. -/
def verificationKey (n : Node) : Walk VerificationKey := do
  n.noteUnknown verificationKeyKeys
  let data ← n.leafOr "data" "" Leaf.string
  let hash ← n.leafOr "hash" Fp.zero Leaf.field
  pure { data, hash }

/-! ### Permissions -/

/-- The keys of a policy on the verification key. -/
def setVerificationKeyKeys : List String := ["auth", "txnVersion"]

/-- A policy on the verification key. A missing version is zero. -/
def setVerificationKey (n : Node) : Walk SetVerificationKey := do
  n.noteUnknown setVerificationKeyKeys
  let auth ← n.auth "auth"
  let txnVersion ← n.leafOr "txnVersion" 0 (Leaf.word 32)
  pure { auth, txnVersion }

/-- The policy on the verification key of permissions that do not give one. -/
def noPolicy : SetVerificationKey := ⟨.none, 0⟩

/-- The keys of permissions. -/
def permissionKeys : List String :=
  ["editState", "access", "send", "receive", "setDelegate", "setPermissions",
   "setVerificationKey", "setZkappUri", "editActionState", "setTokenSymbol", "incrementNonce",
   "setVotingFor", "setTiming"]

/-- Permissions. The policy on the verification key is read first. -/
def permissions (n : Node) : Walk Permissions := do
  n.noteUnknown permissionKeys
  let policy ← n.child? "setVerificationKey"
  let setVerificationKey ← match policy with
    | some child => setVerificationKey child
    | none => pure noPolicy
  let editState ← n.auth "editState"
  let access ← n.auth "access"
  let send ← n.auth "send"
  let receive ← n.auth "receive"
  let setDelegate ← n.auth "setDelegate"
  let setPermissions ← n.auth "setPermissions"
  let setZkappUri ← n.auth "setZkappUri"
  let editActionState ← n.auth "editActionState"
  let setTokenSymbol ← n.auth "setTokenSymbol"
  let incrementNonce ← n.auth "incrementNonce"
  let setVotingFor ← n.auth "setVotingFor"
  let setTiming ← n.auth "setTiming"
  pure { editState, access, send, receive, setDelegate, setPermissions, setVerificationKey,
         setZkappUri, editActionState, setTokenSymbol, incrementNonce, setVotingFor, setTiming }

/-! ### Timing -/

/-- The keys of a vesting schedule. -/
def timingKeys : List String :=
  ["initialMinimumBalance", "cliffTime", "cliffAmount", "vestingPeriod", "vestingIncrement"]

/-- A vesting schedule, complete. -/
def timing (n : Node) : Walk Timing := do
  n.noteUnknown timingKeys
  let initialMinimumBalance ← n.requiredLeaf "initialMinimumBalance" (Leaf.word 64)
  let cliffTime ← n.requiredLeaf "cliffTime" (Leaf.word 32)
  let cliffAmount ← n.requiredLeaf "cliffAmount" (Leaf.word 64)
  let vestingPeriod ← n.requiredLeaf "vestingPeriod" (Leaf.word 32)
  let vestingIncrement ← n.requiredLeaf "vestingIncrement" (Leaf.word 64)
  pure { initialMinimumBalance, cliffTime, cliffAmount, vestingPeriod, vestingIncrement }

/-! ### The block -/

/-- The keys of an update. -/
def updateKeys : List String :=
  ["appState", "delegate", "verificationKey", "permissions", "zkappUri", "tokenSymbol", "timing",
   "votingFor"]

/-- An update. -/
def update (shape : Shape) (n : Node) : Walk Update := do
  n.noteUnknown updateKeys
  let appState ← n.within "appState" (slots shape)
  let delegate ← n.optionalLeaf shape "delegate" Leaf.publicKey
  let verificationKey ← n.optionalBlock shape "verificationKey" verificationKey
  let permissions ← n.optionalBlock shape "permissions" permissions
  let zkappUri ← n.optionalLeaf shape "zkappUri" Leaf.uri
  let tokenSymbol ← n.optionalLeaf shape "tokenSymbol" Leaf.tokenSymbol
  let timing ← n.optionalBlock shape "timing" timing
  let votingFor ← n.optionalLeaf shape "votingFor" (Leaf.hash Base58.stateHashVersion)
  pure { appState, delegate, verificationKey, permissions, zkappUri, tokenSymbol, timing,
         votingFor }

end ZkCommand.Schema
