import ZkCommand.Command.Leaves

/-!
# ZkCommand.Config

**Settings of a run.** Three optional texts, which come from options or from the environment,
are resolved to a configuration. The name of a vector decides the variant of the schema only
when no variant is given.
-/

namespace ZkCommand

/-- The two variants of the schema. -/
inductive Variant
  | simple
  | proper
  deriving DecidableEq, Repr, Inhabited

namespace Variant

/-- The name of a variant. -/
def name : Variant → String
  | .simple => "simple"
  | .proper => "proper"

/-- The one vector name that implies the proper variant. -/
def properVector : String := "multiple_account_updates"

/-- The variant that the name of a vector implies. -/
def ofVector (vector : String) : Variant := if vector = properVector then .proper else .simple

/-- The network of a variant. -/
def network : Variant → Network
  | .simple => .mainnet
  | .proper => .testnet

end Variant

/-- The configuration of a run. -/
structure Config where
  shape : Shape
  variant : Variant
  name : String
  deriving DecidableEq, Repr

namespace Config

/-- A setting with a value that it does not know. -/
inductive Fault
  | unknownVariant (text : String)
  | unknownShape (text : String)
  deriving DecidableEq, Repr

/-- The wording of a failure. -/
def Fault.message : Fault → String
  | .unknownVariant text => "unknown schema variant '" ++ text ++ "'"
  | .unknownShape text => "unknown optional shape '" ++ text ++ "'"

/-! ### Reading settings -/

/-- A text with its ASCII capitals made small. -/
def lowercase (text : String) : String := String.ofList (text.toList.map Char.toLower)

/-- The variant with a name, in any case of ASCII letters. -/
def readVariant (text : String) : Except Fault Variant :=
  if lowercase text = Variant.simple.name then .ok .simple
  else if lowercase text = Variant.proper.name then .ok .proper
  else .error (.unknownVariant text)

/-- The shape with a name, in any case of ASCII letters. -/
def readShape (text : String) : Except Fault Shape :=
  if lowercase text = Shape.tagged.name then .ok .tagged
  else if lowercase text = Shape.flagged.name then .ok .flagged
  else .error (.unknownShape text)

/-- The settings as they are given. -/
structure Settings where
  name : Option String
  variant : Option String
  shape : Option String
  deriving DecidableEq, Repr

/-- The vector name of a run without one. -/
def defaultName : String := "complex_zkapp_command"

/-- A value that may be overridden by a text. -/
def override {α : Type} (read : String → Except Fault α) (value : α) :
    Option String → Except Fault α
  | none => .ok value
  | some text => read text

/-- The configuration of given settings. -/
def resolve (settings : Settings) : Except Fault Config := do
  let name := settings.name.getD defaultName
  let variant ← override readVariant (Variant.ofVector name) settings.variant
  let shape ← override readShape .tagged settings.shape
  .ok ⟨shape, variant, name⟩

/-- The network of a run. -/
def network (config : Config) : Network := config.variant.network

end Config

end ZkCommand
