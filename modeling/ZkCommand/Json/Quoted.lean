import ZkCommand.Json.Scan
import ZkCommand.Text.Hex

/-!
# ZkCommand.Json.Quoted

**Strings.** The body of a string up to its closing quote. A code point beyond the basic plane
may be escaped as a pair of surrogates; half a pair is refused, and so is a bare control
character.
-/

namespace ZkCommand.Json

open Text

/-- The character of a one-letter escape. -/
def shortEscape? (c : Char) : Option Char :=
  if c = '"' then some '"'
  else if c = '\\' then some '\\'
  else if c = '/' then some '/'
  else if c = 'b' then some '\x08'
  else if c = 'f' then some '\x0c'
  else if c = 'n' then some '\n'
  else if c = 'r' then some '\r'
  else if c = 't' then some '\t'
  else none

/-- The value of four hexadecimal digits. -/
def hexValue? (a b c d : Char) : Option Nat := do
  let w ← Hex.digitValue? a
  let x ← Hex.digitValue? b
  let y ← Hex.digitValue? c
  let z ← Hex.digitValue? d
  some (((w * 16 + x) * 16 + y) * 16 + z)

theorem length_afterQuad_lt (a b c d : Char) (r : List Char) :
    r.length < (a :: b :: c :: d :: r).length := by
  grind

/-- Four hexadecimal digits. With fewer than four bytes left the text is over; otherwise four
bytes are consumed, also if they are no digits. -/
def hexQuad : Reader Nat := fun s =>
  if Utf8.size (s.take 4) < 4 then .error (.atEnd .endOfString)
  else
    match s with
    | a :: b :: c :: d :: r =>
        match hexValue? a b c d with
        | some n => .ok ⟨n, r, length_afterQuad_lt a b c d r⟩
        | none => .error (.taking 4 .invalidEscape (a :: b :: c :: d :: r))
    | s => .error (.taking 4 .invalidEscape s)

/-- The first half of a surrogate pair. -/
def isHighSurrogate (n : Nat) : Bool := decide (0xd800 ≤ n) && decide (n ≤ 0xdbff)

/-- The second half of a surrogate pair. -/
def isLowSurrogate (n : Nat) : Bool := decide (0xdc00 ≤ n) && decide (n ≤ 0xdfff)

/-- The character of a surrogate pair. -/
def surrogatePair (high low : Nat) : Char :=
  Char.ofNat (0x10000 + (high - 0xd800) * 0x400 + (low - 0xdc00))

theorem length_afterLow_lt (c d : Char) (r : List Char) (code : Parsed Nat r.length) :
    code.rest.length < (c :: d :: r).length := by
  grind

/-- The code that completes a high surrogate: an escape of its own with a low one. -/
def lowSurrogate : Reader Nat
  | [] => .error (.atEnd .endOfString)
  | c :: s =>
      if c = '\\' then
        match s with
        | [] => .error (.atEnd .endOfString)
        | d :: r =>
            if d = 'u' then do
              let code ← hexQuad r
              if isLowSurrogate code.value then
                .ok ⟨code.value, code.rest, length_afterLow_lt c d r code⟩
              else .error (.before .loneSurrogate code.rest)
            else .error (.taking 1 .unfinishedSurrogate (d :: r))
      else .error (.taking 1 .unfinishedSurrogate (c :: s))

/-- The character of an escape with four digits, from the first digit. -/
def codeEscape : Reader Char := fun s => do
  let code ← hexQuad s
  if isLowSurrogate code.value then .error (.before .loneSurrogate code.rest)
  else if isHighSurrogate code.value then do
    let low ← lowSurrogate code.rest
    .ok ⟨surrogatePair code.value low.value, low.rest, by grind⟩
  else .ok ⟨Char.ofNat code.value, code.rest, code.rest_lt⟩

theorem length_afterCode_lt (c : Char) (s : List Char) (code : Parsed Char s.length) :
    code.rest.length < (c :: s).length :=
  Nat.lt_succ_of_lt code.rest_lt

/-- The character of an escape, from the character after the backslash. -/
def escape : Reader Char
  | [] => .error (.atEnd .endOfString)
  | c :: s =>
      match shortEscape? c with
      | some d => .ok ⟨d, s, length_lt_cons c s⟩
      | none =>
          if c = 'u' then do
            let code ← codeEscape s
            .ok ⟨code.value, code.rest, length_afterCode_lt c s code⟩
          else .error (.taking 1 .invalidEscape (c :: s))

theorem length_afterEscape_lt (c : Char) (s : List Char) (d : Parsed Char s.length)
    (tail : Parsed (List Char) d.rest.length) : tail.rest.length < (c :: s).length := by
  grind

theorem length_afterBody_lt (c : Char) (s : List Char) (tail : Parsed (List Char) s.length) :
    tail.rest.length < (c :: s).length :=
  Nat.lt_succ_of_lt tail.rest_lt

/-- The characters of a string, from after its opening quote to after its closing one. -/
def quotedBody : Reader (List Char)
  | [] => .error (.atEnd .endOfString)
  | c :: s =>
      if c = '"' then .ok ⟨[], s, length_lt_cons c s⟩
      else if c = '\\' then do
        let d ← escape s
        let tail ← quotedBody d.rest
        .ok ⟨d.value :: tail.value, tail.rest, length_afterEscape_lt c s d tail⟩
      else if c.toNat < 0x20 then .error (.before .controlCharacter s)
      else do
        let tail ← quotedBody s
        .ok ⟨c :: tail.value, tail.rest, length_afterBody_lt c s tail⟩
termination_by s => s.length
decreasing_by all_goals grind

end ZkCommand.Json
