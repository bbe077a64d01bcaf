/-!
# ZkCommand.Text.Utf8

**Texts as bytes.** The UTF-8 encoding of a character list and its length, in which byte offsets
and size limits are counted.
-/

namespace ZkCommand.Text.Utf8

/-- The UTF-8 bytes of a text. -/
def bytes (s : List Char) : List UInt8 := s.flatMap String.utf8EncodeChar

/-- The number of UTF-8 bytes of a text. -/
def size : List Char → Nat
  | [] => 0
  | c :: rest => c.utf8Size + size rest

end ZkCommand.Text.Utf8
