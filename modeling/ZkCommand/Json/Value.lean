import ZkCommand.Decimal
import ZkCommand.Json.Number
import ZkCommand.Json.Quoted
import ZkCommand.Tree

/-!
# ZkCommand.Json.Value

**Reading a JSON text.** A value may be nested in at most 127 lists and mappings; the number of
levels still free is the structural argument of `value`, and the loops over items and entries
end because each step leaves a shorter text. A mapping whose first key is `numberKey` is no mapping
but the number in the text under that key. `readTree` reads a whole text.
-/

namespace ZkCommand.Json

open Text

/-- The number of lists and mappings that may enclose one another. -/
def maxLevels : Nat := 127

/-! ### Words -/

/-- The remaining letters of a word whose first letter has been read. -/
def wordTail (letters : List Char) (s : List Char) :
    Except Failure (Parsed Unit (s.length + 1)) :=
  match letters, s with
  | [], s => .ok ⟨(), s, by simp⟩
  | _ :: _, [] => .error (.atEnd .endOfValue)
  | l :: ls, c :: r =>
      if c = l then do
        let tail ← wordTail ls r
        .ok ⟨(), tail.rest, by grind⟩
      else .error (.taking 1 .expectedWord (c :: r))

/-! ### Scalars -/

/-- A word, a number or a string, from its first character on. -/
def scalar : Reader Tree
  | [] => .error (.atEnd .endOfValue)
  | c :: r =>
      if c = 'n' then do
        let word ← wordTail ['u', 'l', 'l'] r
        .ok ⟨.null, word.rest, word.rest_lt⟩
      else if c = 't' then do
        let word ← wordTail ['r', 'u', 'e'] r
        .ok ⟨.bool true, word.rest, word.rest_lt⟩
      else if c = 'f' then do
        let word ← wordTail ['a', 'l', 's', 'e'] r
        .ok ⟨.bool false, word.rest, word.rest_lt⟩
      else if c = '-' ∨ c.isDigit then do
        let literal ← number (c :: r)
        .ok ⟨.num (String.ofList literal.value), literal.rest, literal.rest_lt⟩
      else if c = '"' then do
        let body ← quotedBody r
        .ok ⟨.str (String.ofList body.value), body.rest, Nat.lt_succ_of_lt body.rest_lt⟩
      else .error (.peek .expectedValue (c :: r))

/-! ### Lists -/

/-- The items after the first, from after an item to after the closing bracket. -/
def moreItems (item : Reader Tree) : Reader (List Tree) := fun s =>
  match skipSpace s with
  | ⟨_, [], _⟩ => .error (.atEnd .endOfList)
  | ⟨_, c :: r, short⟩ =>
      if c = ']' then .ok ⟨[], r, by grind⟩
      else if c = ',' then
        if (skipSpace r).rest.head? = some ']' then
          .error (.peek .trailingComma (skipSpace r).rest)
        else do
          let first ← item r
          let others ← moreItems item first.rest
          .ok ⟨first.value :: others.value, others.rest, by grind⟩
      else .error (.peek .expectedListEnd (c :: r))
termination_by s => s.length
decreasing_by grind

/-- The items of a list, from after the opening bracket to after the closing one. -/
def items (item : Reader Tree) : Reader (List Tree) := fun s =>
  match skipSpace s with
  | ⟨_, [], _⟩ => .error (.atEnd .endOfList)
  | ⟨_, c :: r, short⟩ =>
      if c = ']' then .ok ⟨[], r, by grind⟩
      else do
        let first ← item (c :: r)
        let others ← moreItems item first.rest
        .ok ⟨first.value :: others.value, others.rest, by grind⟩

/-! ### Mappings -/

theorem length_afterEntry_lt (c : Char) (s : List Char) (key : Parsed (List Char) s.length)
    (d : Char) (r : List Char) (short : (d :: r).length < key.rest.length + 1)
    (val : Parsed Tree r.length) : val.rest.length < (c :: s).length := by
  grind

/-- One entry: a string, a colon and a value. -/
def entry (item : Reader Tree) : Reader (String × Tree)
  | [] => .error (.atEnd .endOfValue)
  | c :: s =>
      if c = '"' then do
        let key ← quotedBody s
        match skipSpace key.rest with
        | ⟨_, [], _⟩ => .error (.atEnd .endOfMapping)
        | ⟨_, d :: r, short⟩ =>
            if d = ':' then do
              let val ← item r
              .ok ⟨(String.ofList key.value, val.value), val.rest,
                length_afterEntry_lt c s key d r short val⟩
            else .error (.peek .expectedColon (d :: r))
      else .error (.peek .keyNotString (c :: s))

/-- The entries after the first, from after an entry to after the closing brace. -/
def moreEntries (item : Reader Tree) : Reader (List (String × Tree)) := fun s =>
  match skipSpace s with
  | ⟨_, [], _⟩ => .error (.atEnd .endOfMapping)
  | ⟨_, c :: r, short⟩ =>
      if c = '\x7d' then .ok ⟨[], r, by grind⟩
      else if c = ',' then
        match skipSpace r with
        | ⟨_, t, within⟩ =>
            if t.head? = some '\x7d' then .error (.peek .trailingComma t)
            else do
              let first ← entry item t
              let others ← moreEntries item first.rest
              .ok ⟨first.value :: others.value, others.rest, by grind⟩
      else .error (.peek .expectedMappingEnd (c :: r))
termination_by s => s.length
decreasing_by grind

/-- The entries of a mapping, from after the opening brace to after the closing one. -/
def entries (item : Reader Tree) : Reader (List (String × Tree)) := fun s =>
  match skipSpace s with
  | ⟨_, [], _⟩ => .error (.atEnd .endOfMapping)
  | ⟨_, c :: r, short⟩ =>
      if c = '\x7d' then .ok ⟨[], r, by grind⟩
      else do
        let first ← entry item (c :: r)
        let others ← moreEntries item first.rest
        .ok ⟨first.value :: others.value, others.rest, by grind⟩

/-- The mapping of the entries read, in which a repeated key has its last value. -/
def mapOfEntries (entries : List (String × Tree)) : Tree :=
  .map (entries.foldl (fun acc entry => Tree.insert entry.1 entry.2 acc) [])

/-! ### Numbers in a text of their own -/

/-- The key of a mapping that stands for a number. -/
def numberKey : String := "$serde_json::private::Number"

/-- A text that is a number from its first character to its last. -/
def wholeNumber : List Char → Except Failure (List Char)
  | [] => .error (.atEnd .endOfValue)
  | c :: r =>
      if c = '-' ∨ c.isDigit then do
        let literal ← number (c :: r)
        if literal.rest.isEmpty then .ok literal.value
        else .error (.peek .invalidNumber literal.rest)
      else .error (.peek .invalidNumber (c :: r))

/-- A failure in the text of a number: if anything is left of it, that is what is refused. -/
def Failure.inNumeral (text : List Char) (f : Failure) : Failure :=
  if f.left = 0 then ⟨f.cause, 0, f.ahead, some text⟩
  else ⟨.invalidNumber, f.left, true, some text⟩

/-- The number in a text of its own. -/
def numeral (text : List Char) : Except Failure (List Char) :=
  (wholeNumber text).mapError (Failure.inNumeral text)

/-- The literal of an integer of 64 bits, with a sign or without; a zero with a sign is none. -/
def isWord : List Char → Bool
  | '-' :: digits =>
      Decimal.isNumeral digits && digits ≠ ['0'] && decide (Decimal.read digits ≤ Nat.pow 2 63)
  | digits => Decimal.isNumeral digits && decide (Decimal.read digits < Nat.pow 2 64)

/-- What a value is called where the text of a number is due. -/
def foundName : Tree → String
  | .null => "null"
  | .bool b => "boolean \x60" ++ (if b then "true" else "false") ++ "\x60"
  | .num literal =>
      if isWord literal.toList then "integer \x60" ++ literal ++ "\x60" else "number"
  | .str _ => "string"
  | .list _ => "sequence"
  | .map _ => "map"

/-- The number in the string that comes next. Another scalar is refused behind it, and a list or a
mapping before it. -/
def numberText : Reader Tree := fun s =>
  match skipSpace s with
  | ⟨_, [], _⟩ => .error (.atEnd .endOfValue)
  | ⟨_, c :: r, short⟩ =>
      if c = '[' then .error (.before (.noNumberText (foundName (.list []))) (c :: r))
      else if c = '\x7b' then .error (.before (.noNumberText (foundName (.map []))) (c :: r))
      else do
        let leaf ← scalar (c :: r)
        match leaf.value with
        | .str text => do
            let literal ← numeral text.toList
            .ok ⟨.num (String.ofList literal), leaf.rest, by grind⟩
        | other => .error (.before (.noNumberText (foundName other)) leaf.rest)

/-- The first key behind an opening brace is the one for a number. -/
def opensNumber (s : List Char) : Bool :=
  match (skipSpace s).rest with
  | [] => false
  | c :: r =>
      if c = '"' then
        match quotedBody r with
        | .ok key => String.ofList key.value = numberKey
        | .error _ => false
      else false

/-- The number that a mapping stands for, from after the opening brace to after the closing one. It
is under the only key. -/
def numberEntry : Reader Tree := fun s =>
  match skipSpace s with
  | ⟨_, t, within⟩ => do
      let only ← entry numberText t
      match skipSpace only.rest with
      | ⟨_, [], _⟩ => .error (.atEnd .endOfMapping)
      | ⟨_, c :: r, short⟩ =>
          if c = '\x7d' then .ok ⟨only.value.2, r, by grind⟩
          else if c = ',' then .error (.peek .trailingComma (c :: r))
          else .error (.peek .trailingCharacters (c :: r))

/-! ### Values -/

/-- A mapping, or the number that it stands for, from after the opening brace. -/
def mapping (item : Reader Tree) : Reader Tree := fun s =>
  if opensNumber s then numberEntry s
  else do
    let body ← entries item s
    .ok ⟨mapOfEntries body.value, body.rest, body.rest_lt⟩

/-- A value, with a reader for what lists and mappings hold, unless no level is left for them. -/
def valueWith (inner : Option (Reader Tree)) : Reader Tree := fun s =>
  match skipSpace s with
  | ⟨_, [], _⟩ => .error (.atEnd .endOfValue)
  | ⟨_, c :: r, short⟩ =>
      if c = '[' then
        match inner with
        | none => .error (.peek .tooDeep (c :: r))
        | some item => do
            let body ← items item r
            .ok ⟨.list body.value, body.rest, by grind⟩
      else if c = '\x7b' then
        match inner with
        | none => .error (.peek .tooDeep (c :: r))
        | some item => do
            let body ← mapping item r
            .ok ⟨body.value, body.rest, by grind⟩
      else do
        let leaf ← scalar (c :: r)
        .ok ⟨leaf.value, leaf.rest, by grind⟩

/-- A value with so many levels of lists and mappings left. -/
def value : (levels : Nat) → Reader Tree
  | 0 => valueWith none
  | levels + 1 => valueWith (some (value levels))

/-- The value of a whole text, with white space around it. -/
def readTree (text : List Char) : Except Failure Tree := do
  let top ← value maxLevels text
  match (skipSpace top.rest).rest with
  | [] => .ok top.value
  | c :: r => .error (.peek .trailingCharacters (c :: r))

end ZkCommand.Json
