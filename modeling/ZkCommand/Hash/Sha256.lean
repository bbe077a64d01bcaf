/-!
# ZkCommand.Hash.Sha256

**SHA-256** of a byte list. The message schedule is a sliding window of sixteen words that moves
one word per round, and the chaining value is a structure of eight words, so that no step looks
up a position in an array.
-/

namespace ZkCommand.Hash.Sha256

/-! ### Round constants and word functions -/

/-- The sixty-four round constants. -/
def roundConstants : List UInt32 :=
  [0x428a2f98, 0x71374491, 0xb5c0fbcf, 0xe9b5dba5, 0x3956c25b, 0x59f111f1, 0x923f82a4, 0xab1c5ed5,
   0xd807aa98, 0x12835b01, 0x243185be, 0x550c7dc3, 0x72be5d74, 0x80deb1fe, 0x9bdc06a7, 0xc19bf174,
   0xe49b69c1, 0xefbe4786, 0x0fc19dc6, 0x240ca1cc, 0x2de92c6f, 0x4a7484aa, 0x5cb0a9dc, 0x76f988da,
   0x983e5152, 0xa831c66d, 0xb00327c8, 0xbf597fc7, 0xc6e00bf3, 0xd5a79147, 0x06ca6351, 0x14292967,
   0x27b70a85, 0x2e1b2138, 0x4d2c6dfc, 0x53380d13, 0x650a7354, 0x766a0abb, 0x81c2c92e, 0x92722c85,
   0xa2bfe8a1, 0xa81a664b, 0xc24b8b70, 0xc76c51a3, 0xd192e819, 0xd6990624, 0xf40e3585, 0x106aa070,
   0x19a4c116, 0x1e376c08, 0x2748774c, 0x34b0bcb5, 0x391c0cb3, 0x4ed8aa4a, 0x5b9cca4f, 0x682e6ff3,
   0x748f82ee, 0x78a5636f, 0x84c87814, 0x8cc70208, 0x90befffa, 0xa4506ceb, 0xbef9a3f7, 0xc67178f2]

/-- Rotation to the right by fewer than 32 places. -/
def rotr (x n : UInt32) : UInt32 := (x >>> n) ||| (x <<< (32 - n))

/-- The mixing of a word that enters the sum of the working variable `e`. -/
def bigSigma1 (x : UInt32) : UInt32 := rotr x 6 ^^^ rotr x 11 ^^^ rotr x 25

/-- The mixing of a word that enters the sum of the working variable `a`. -/
def bigSigma0 (x : UInt32) : UInt32 := rotr x 2 ^^^ rotr x 13 ^^^ rotr x 22

/-- The mixing of the second oldest schedule word. -/
def smallSigma0 (x : UInt32) : UInt32 := rotr x 7 ^^^ rotr x 18 ^^^ (x >>> 3)

/-- The mixing of the second newest schedule word. -/
def smallSigma1 (x : UInt32) : UInt32 := rotr x 17 ^^^ rotr x 19 ^^^ (x >>> 10)

/-! ### Compression -/

/-- The eight words of the chaining value. -/
structure State where
  a : UInt32
  b : UInt32
  c : UInt32
  d : UInt32
  e : UInt32
  f : UInt32
  g : UInt32
  h : UInt32

/-- The chaining value before the first block. -/
def State.initial : State :=
  ⟨0x6a09e667, 0xbb67ae85, 0x3c6ef372, 0xa54ff53a, 0x510e527f, 0x9b05688c, 0x1f83d9ab, 0x5be0cd19⟩

/-- Wordwise sum of two chaining values. -/
def State.add (s t : State) : State :=
  ⟨s.a + t.a, s.b + t.b, s.c + t.c, s.d + t.d, s.e + t.e, s.f + t.f, s.g + t.g, s.h + t.h⟩

/-- One round with its constant and its schedule word. -/
def State.round (s : State) (constant word : UInt32) : State :=
  let choice := (s.e &&& s.f) ^^^ ((~~~ s.e) &&& s.g)
  let majority := (s.a &&& s.b) ^^^ (s.a &&& s.c) ^^^ (s.b &&& s.c)
  let t1 := s.h + bigSigma1 s.e + choice + constant + word
  let t2 := bigSigma0 s.a + majority
  ⟨t1 + t2, s.a, s.b, s.c, s.d + t1, s.e, s.f, s.g⟩

/-- The window moved on by one word: the next one is the sum of the oldest, the tenth and the
mixed second oldest and second newest. -/
def slide (window : List UInt32) : List UInt32 :=
  let old (i : Nat) : UInt32 := window.getD i 0
  window.drop 1 ++ [smallSigma1 (old 14) + old 9 + smallSigma0 (old 1) + old 0]

/-- The rounds for the remaining constants. -/
def rounds : List UInt32 → List UInt32 → State → State
  | [], _, s => s
  | k :: ks, window, s => rounds ks (slide window) (s.round k (window.headD 0))

/-- The chaining value after a block of sixteen words. -/
def compress (s : State) (block : List UInt32) : State :=
  s.add (rounds roundConstants block s)

/-! ### Padding and the digest -/

/-- Four bytes as a word, the most significant first. -/
def word (bytes : List UInt8) : UInt32 :=
  bytes.foldl (fun acc b => (acc <<< 8) ||| b.toUInt32) 0

/-- The four bytes of a word, the most significant first. -/
def wordBytes (w : UInt32) : List UInt8 :=
  [(w >>> 24).toUInt8, (w >>> 16).toUInt8, (w >>> 8).toUInt8, w.toUInt8]

/-- A list cut into pieces of `n + 1` elements; the last piece may be shorter. -/
def pieces {α : Type} (n : Nat) (xs : List α) : List (List α) :=
  if h : xs = [] then [] else xs.take (n + 1) :: pieces n (xs.drop (n + 1))
termination_by xs.length
decreasing_by
  have := List.length_pos_iff.2 h
  simp; omega

/-- The message length in bits, as eight bytes. -/
def lengthBytes (n : Nat) : List UInt8 :=
  (List.range 8).map fun i => UInt8.ofNat (n * 8 / Nat.pow 256 (7 - i))

/-- The message with a one bit, zeros up to eight bytes before a block's end, and its length. -/
def pad (message : List UInt8) : List UInt8 :=
  let n := message.length
  message ++ 0x80 :: (List.replicate ((119 - n % 64) % 64) 0 ++ lengthBytes n)

/-- The digest of thirty-two bytes. -/
def digest (message : List UInt8) : List UInt8 :=
  let blocks := pieces 63 (pad message)
  let s := blocks.foldl (fun s block => compress s ((pieces 3 block).map word)) State.initial
  [s.a, s.b, s.c, s.d, s.e, s.f, s.g, s.h].flatMap wordBytes

/-- The digest has thirty-two bytes whatever the message. -/
theorem length_digest (message : List UInt8) : (digest message).length = 32 := by
  simp [digest, wordBytes]

end ZkCommand.Hash.Sha256
