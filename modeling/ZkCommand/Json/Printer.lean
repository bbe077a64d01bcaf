import ZkCommand.Tree
import ZkCommand.Text.Hex

/-!
# ZkCommand.Json.Printer

**JSON text of a tree.** `compact` writes no white space at all; `pretty` gives every list item
and every entry a line of its own, indented by two spaces a level, and keeps empty lists and
mappings on one line. Both write the same scalars.
-/

namespace ZkCommand.Tree

/-! ### Scalars -/

/-- The spelling of one character between quotes: short escapes where there are any, a code for
the other characters below the space, and everything else as itself. -/
def quoteChar (c : Char) : List Char :=
  if c = '"' then ['\\', '"']
  else if c = '\\' then ['\\', '\\']
  else if c = '\x08' then ['\\', 'b']
  else if c = '\t' then ['\\', 't']
  else if c = '\n' then ['\\', 'n']
  else if c = '\x0c' then ['\\', 'f']
  else if c = '\r' then ['\\', 'r']
  else if c.toNat < 0x20 then ['\\', 'u'] ++ Text.Hex.ofCode c.toNat
  else [c]

/-- A text between quotes. -/
def quote (s : String) : List Char := '"' :: (s.toList.flatMap quoteChar ++ ['"'])

/-- The word for a truth value. -/
def boolWord (b : Bool) : List Char := if b then "true".toList else "false".toList

/-! ### Compact text -/

mutual

/-- The characters of a value without white space. -/
def chars : Tree → List Char
  | .null => "null".toList
  | .bool b => boolWord b
  | .num literal => literal.toList
  | .str text => quote text
  | .list items => '[' :: (charsItems items ++ [']'])
  | .map entries => '\x7b' :: (charsEntries entries ++ ['\x7d'])

/-- The items of a list, set off by commas. -/
def charsItems : List Tree → List Char
  | [] => []
  | [t] => chars t
  | t :: rest => chars t ++ ',' :: charsItems rest

/-- The entries of a mapping, set off by commas. -/
def charsEntries : List (String × Tree) → List Char
  | [] => []
  | [(k, t)] => quote k ++ ':' :: chars t
  | (k, t) :: rest => quote k ++ ':' :: (chars t ++ ',' :: charsEntries rest)

end

/-- The compact text of a value. -/
def compact (t : Tree) : String := String.ofList t.chars

/-! ### Indented text -/

/-- A line break and the indentation of a level. -/
def newline (level : Nat) : List Char := '\n' :: List.replicate (2 * level) ' '

mutual

/-- The characters of a value whose own line is indented by `level`. -/
def prettyChars (level : Nat) : Tree → List Char
  | .null => "null".toList
  | .bool b => boolWord b
  | .num literal => literal.toList
  | .str text => quote text
  | .list [] => ['[', ']']
  | .list (t :: rest) =>
      '[' :: (newline (level + 1) ++ prettyChars (level + 1) t
        ++ prettyItems (level + 1) rest ++ newline level ++ [']'])
  | .map [] => ['\x7b', '\x7d']
  | .map ((k, t) :: rest) =>
      '\x7b' :: (newline (level + 1) ++ quote k ++ ':' :: ' ' :: (prettyChars (level + 1) t
        ++ prettyEntries (level + 1) rest ++ newline level ++ ['\x7d']))

/-- The items of a list after the first, each on a new line. -/
def prettyItems (level : Nat) : List Tree → List Char
  | [] => []
  | t :: rest => ',' :: (newline level ++ prettyChars level t ++ prettyItems level rest)

/-- The entries of a mapping after the first, each on a new line. -/
def prettyEntries (level : Nat) : List (String × Tree) → List Char
  | [] => []
  | (k, t) :: rest =>
      ',' :: (newline level ++ quote k ++ ':' :: ' ' ::
        (prettyChars level t ++ prettyEntries level rest))

end

/-- The indented text of a value. -/
def pretty (t : Tree) : String := String.ofList (prettyChars 0 t)

end ZkCommand.Tree
