import ZkCommand.Decimal

/-!
# ZkCommand.Path

**Places in a document.** A path is the list of steps from the root to a node: the key of a
mapping entry or the index of a list element. Errors and diagnostics name their place by the
dotted text of a path, as in `accountUpdates[2].body.callDepth`.
-/

namespace ZkCommand

/-- One step from a node to one of its children. -/
inductive Segment
  | key (name : String)
  | index (position : Nat)
  deriving DecidableEq, Repr

/-- The steps from the root to a node, in order. -/
structure Path where
  segments : List Segment
  deriving DecidableEq, Repr

namespace Path

/-- The path of the document itself. -/
def root : Path := ⟨[]⟩

/-- The path of the entry under a key. -/
def key (p : Path) (name : String) : Path := ⟨p.segments ++ [.key name]⟩

/-- The path of a list element. -/
def index (p : Path) (position : Nat) : Path := ⟨p.segments ++ [.index position]⟩

/-- No step has been taken. -/
def isRoot (p : Path) : Bool := p.segments.isEmpty

/-- A step that follows another one: keys are set off by a dot. -/
def showStep : Segment → String
  | .key name => "." ++ name
  | .index position => "[" ++ Decimal.text position ++ "]"

/-- A first step: a key stands by itself. -/
def showFirst : Segment → String
  | .key name => name
  | .index position => showStep (.index position)

/-- The dotted text of a path. -/
def display (p : Path) : String :=
  match p.segments with
  | [] => "<root>"
  | first :: rest => rest.foldl (fun text step => text ++ showStep step) (showFirst first)

end Path

end ZkCommand
