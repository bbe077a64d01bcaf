import ZkCommand.Text.Utf8

/-!
# ZkCommand.Text.Position

**Lines and columns.** Lines count from one. A character's own column counts from one in
characters; the place where reading bytes stopped has as its column the number of bytes read on
its line.
-/

namespace ZkCommand.Text

/-- A place in a text. -/
structure Position where
  line : Nat
  column : Nat
  deriving DecidableEq, Repr

namespace Position

/-- The place after one more character, a line break starting a new line. -/
def past (width : Nat) (origin : Nat) (p : Position) (c : Char) : Position :=
  if c = '\n' then ⟨p.line + 1, origin⟩ else ⟨p.line, p.column + width⟩

/-- The place of the character that follows a text. -/
def ofCharAfter (before : List Char) : Position :=
  before.foldl (past 1 1) ⟨1, 1⟩

/-- The place reached from `p` after so many bytes; they may end inside a character. -/
def afterBytes (p : Position) : List Char → Nat → Position
  | [], _ => p
  | c :: rest, count =>
      if count < c.utf8Size then ⟨p.line, p.column + count⟩
      else afterBytes (past c.utf8Size 0 p c) rest (count - c.utf8Size)

/-- The place where reading stopped after so many bytes of a text. -/
def ofByteCount (text : List Char) (count : Nat) : Position := afterBytes ⟨1, 0⟩ text count

end Position

end ZkCommand.Text
