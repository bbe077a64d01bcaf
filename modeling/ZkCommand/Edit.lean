import ZkCommand.Path
import ZkCommand.Tree

/-!
# ZkCommand.Edit

**Editing documents** at a path. Setting a key keeps its place or puts it last; setting the index
after the last element appends. A path that leads nowhere changes nothing.
-/

namespace ZkCommand.Tree

/-- The document with the value at a path set. -/
def setAt (t : Tree) (path : List Segment) (value : Tree) : Tree :=
  match path, t with
  | [], _ => value
  | .key name :: rest, .map entries =>
      .map (insert name (setAt ((find? name entries).getD .null) rest value) entries)
  | .index i :: rest, .list items =>
      let child := setAt (items.getD i .null) rest value
      .list (if i = items.length then items ++ [child] else items.set i child)
  | _, t => t
termination_by structural path

/-- The document without the entry or element at a path. -/
def removeAt (t : Tree) (path : List Segment) : Tree :=
  match path, t with
  | [.key name], .map entries => .map (entries.filter fun entry => entry.1 ≠ name)
  | [.index i], .list items => .list (items.eraseIdx i)
  | .key name :: rest, .map entries =>
      .map (entries.map fun entry =>
        if entry.1 = name then (entry.1, removeAt entry.2 rest) else entry)
  | .index i :: rest, .list items => .list (items.modify i fun child => removeAt child rest)
  | _, t => t
termination_by structural path

end ZkCommand.Tree
