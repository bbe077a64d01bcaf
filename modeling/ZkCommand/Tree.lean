/-!
# ZkCommand.Tree

**Document trees.** The value of a JSON text: mappings keep their entries in order, and a number
keeps the digits it was written with, because no value of a command may pass through floating
point. `Tree.insert` is the one way in which mappings grow while a text is read: a repeated key
replaces the value and keeps the first place.
-/

namespace ZkCommand

/-- A document value. A number is its literal text. -/
inductive Tree where
  | null
  | bool (value : Bool)
  | num (literal : String)
  | str (text : String)
  | list (items : List Tree)
  | map (entries : List (String × Tree))
  deriving Inhabited, Repr

namespace Tree

/-- The six kinds of value. -/
inductive Kind
  | null
  | boolean
  | number
  | string
  | list
  | mapping
  deriving DecidableEq, Repr

/-- The word for a kind in messages. -/
def Kind.name : Kind → String
  | .null => "null"
  | .boolean => "boolean"
  | .number => "number"
  | .string => "string"
  | .list => "list"
  | .mapping => "mapping"

/-- The kind of a value. -/
def kind : Tree → Kind
  | .null => .null
  | .bool _ => .boolean
  | .num _ => .number
  | .str _ => .string
  | .list _ => .list
  | .map _ => .mapping

/-- The value is null. -/
def isNull : Tree → Bool
  | .null => true
  | _ => false

/-! ### Entries of a mapping -/

/-- The value under a key. -/
def find? (key : String) : List (String × Tree) → Option Tree
  | [] => none
  | (k, v) :: rest => if k = key then some v else find? key rest

/-- The entries with a key set: in its place if it is there, else at the end. -/
def insert (key : String) (value : Tree) : List (String × Tree) → List (String × Tree)
  | [] => [(key, value)]
  | (k, v) :: rest =>
      if k = key then (key, value) :: rest else (k, v) :: insert key value rest

/-- The value under a key of a mapping; other values have no keys. -/
def get? (key : String) : Tree → Option Tree
  | .map entries => find? key entries
  | _ => none

end Tree

end ZkCommand
