import ZkCommand.Text.CodeRange

/-!
# ZkCommand.Text.Blank

**White space.** Unicode's property White_Space, which both text formats of this library use
for the room between their tokens, and the trimming of a text by it.
-/

namespace ZkCommand.Text

/-- The ranges of White_Space. -/
def blankRanges : List CodeRange :=
  [(0x9, 0xd), (0x20, 0x20), (0x85, 0x85), (0xa0, 0xa0), (0x1680, 0x1680), (0x2000, 0x200a),
   (0x2028, 0x2029), (0x202f, 0x202f), (0x205f, 0x205f), (0x3000, 0x3000)]

/-- A white space character. -/
def isBlank (c : Char) : Bool := inRanges blankRanges c

/-- The text without the white space at its two ends. -/
def trim (s : List Char) : List Char :=
  ((s.dropWhile isBlank).reverse.dropWhile isBlank).reverse

end ZkCommand.Text
