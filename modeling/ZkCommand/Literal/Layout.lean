/-!
# ZkCommand.Literal.Layout

**Nested blocks of lines.** A layout is a line, or a block between an opening and a closing line
whose content is indented by four spaces. Blocks are closed because they are values, so nothing
that is laid out can be left open or closed twice.
-/

namespace ZkCommand.Literal

/-- Lines and blocks of lines. -/
inductive Layout
  | line (text : String)
  | block (opening : String) (body : List Layout) (closing : String)

namespace Layout

/-- A line at a level, with its line break. -/
def indented (level : Nat) (text : String) : String :=
  String.ofList (List.replicate (4 * level) ' ') ++ text ++ "\n"

mutual

/-- The text of a layout at a level. -/
def render (level : Nat) : Layout → String
  | .line text => indented level text
  | .block opening body closing =>
      indented level opening ++ renderAll (level + 1) body ++ indented level closing

/-- The text of layouts that follow one another. -/
def renderAll (level : Nat) : List Layout → String
  | [] => ""
  | l :: rest => render level l ++ renderAll level rest

end

/-! ### Parts of a struct literal -/

/-- A field on a line of its own. -/
def field (key value : String) : Layout := .line (key ++ ": " ++ value ++ ",")

/-- A struct over several lines, with what follows its closing brace. -/
def structWith (head : String) (body : List Layout) (tail : String) : Layout :=
  .block (head ++ " \x7b") body ("\x7d" ++ tail)

/-- A struct over several lines in a list of fields. -/
def struct (head : String) (body : List Layout) : Layout := structWith head body ","

/-- A vector over several lines. -/
def vector (key : String) (items : List Layout) : Layout := .block (key ++ ": vec![") items "],"

end Layout

end ZkCommand.Literal
