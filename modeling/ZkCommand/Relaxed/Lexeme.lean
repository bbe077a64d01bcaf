import ZkCommand.Text.Blank
import ZkCommand.Text.Parsed

/-!
# ZkCommand.Relaxed.Lexeme

**Lexemes of the relaxed notation.** The notation is JSON with single quotes, comments, bare
keys, `undefined`, trailing commas and integers with a suffix `n`. A text is a sequence of
lexemes whose sources are concatenated: `Lexeme.first` takes the first one off, and fails only
where a string or a block comment is never closed.
-/

namespace ZkCommand.Relaxed

open Text

/-- A piece of the notation. What is not a string, comment, comma, number or word is a symbol of
one character, white space included. -/
inductive Lexeme
  | quoted (delimiter : Char) (body : List Char)
  | lineComment (body : List Char)
  | blockComment (body : List Char)
  | comma
  | number (literal : List Char) (suffixed : Bool)
  | word (name : List Char)
  | symbol (c : Char)
  deriving DecidableEq, Repr

/-- The text of a lexeme. -/
def Lexeme.source : Lexeme → List Char
  | .quoted delimiter body => delimiter :: (body ++ [delimiter])
  | .lineComment body => '/' :: '/' :: body
  | .blockComment body => '/' :: '*' :: (body ++ ['*', '/'])
  | .comma => [',']
  | .number literal suffixed => literal ++ if suffixed then ['n'] else []
  | .word name => name
  | .symbol c => [c]

/-- What a text leaves open at its end. -/
inductive Construct
  | string
  | comment
  deriving DecidableEq, Repr

/-- An open construct and the number of characters from its opener to the end of the text. -/
structure Unclosed where
  construct : Construct
  unread : Nat
  deriving DecidableEq, Repr

/-! ### Character classes -/

/-- A letter that may start a word. -/
def isWordStart (c : Char) : Bool := c.isAlpha || c = '_' || c = '$'

/-- A character that continues a word. -/
def isWordPart (c : Char) : Bool := c.isAlphanum || c = '_' || c = '$'

/-! ### Spans -/

theorem length_afterPart_lt (c : Char) (rest : List Char)
    (part : Parsed (List Char) rest.length) : part.rest.length < (c :: rest).length :=
  Nat.lt_succ_of_lt part.rest_lt

theorem length_afterPair_lt (c d : Char) (rest : List Char)
    (part : Parsed (List Char) rest.length) : part.rest.length < (c :: d :: rest).length :=
  Nat.lt_succ_of_lt (Nat.lt_succ_of_lt part.rest_lt)

theorem length_afterRun_lt (c : Char) (rest : List Char)
    (run : Parsed (List Char) (rest.length + 1)) : run.rest.length < (c :: rest).length + 1 :=
  Nat.lt_succ_of_lt run.rest_lt

theorem length_lt_cons_cons (c d : Char) (rest : List Char) :
    rest.length < (c :: d :: rest).length :=
  Nat.lt_succ_of_lt (Nat.lt_succ_self _)

/-- The body of a string and the text after its closing quote. A backslash takes the next
character with it, so only a quote that stands by itself closes the string. -/
def quotedSpan (delimiter : Char) : (s : List Char) → Option (Parsed (List Char) s.length)
  | [] => none
  | ['\\'] => none
  | '\\' :: c :: rest =>
      (quotedSpan delimiter rest).map fun p =>
        ⟨'\\' :: c :: p.value, p.rest, length_afterPair_lt '\\' c rest p⟩
  | c :: rest =>
      if c = delimiter then some ⟨[], rest, length_lt_cons c rest⟩
      else (quotedSpan delimiter rest).map fun p =>
        ⟨c :: p.value, p.rest, length_afterPart_lt c rest p⟩

/-- The text up to a line break, and the text from there on. -/
def lineSpan (s : List Char) : Parsed (List Char) (s.length + 1) :=
  ⟨s.takeWhile (· ≠ '\n'), s.dropWhile (· ≠ '\n'),
    Nat.lt_succ_of_le (List.dropWhile_sublist _).length_le⟩

/-- The body of a block comment and the text after its end. -/
def blockSpan : (s : List Char) → Option (Parsed (List Char) s.length)
  | [] => none
  | '*' :: '/' :: rest => some ⟨[], rest, length_lt_cons_cons '*' '/' rest⟩
  | c :: rest =>
      (blockSpan rest).map fun p => ⟨c :: p.value, p.rest, length_afterPart_lt c rest p⟩

/-- The longest run of characters of a number after its first one: digits, points, exponent
marks, and a sign right after an exponent mark. -/
def numberSpan (previous : Char) : (s : List Char) → Parsed (List Char) (s.length + 1)
  | [] => ⟨[], [], length_nil_lt_succ⟩
  | c :: rest =>
      if c.isDigit || c = '.' || c = 'e' || c = 'E'
          || ((c = '+' || c = '-') && (previous = 'e' || previous = 'E')) then
        let p := numberSpan c rest
        ⟨c :: p.value, p.rest, length_afterRun_lt c rest p⟩
      else ⟨[], c :: rest, length_cons_lt_succ c rest⟩

/-- A literal of digits only, after an optional minus sign. -/
def isPlainInteger : List Char → Bool
  | '-' :: digits => digits.all Char.isDigit
  | digits => digits.all Char.isDigit

/-- A text starts with the suffix of an integer: an `n` with which no word goes on. -/
def startsWithSuffix (s : List Char) : Bool :=
  s.head? = some 'n' && !(s.drop 1).head?.any isWordPart

/-- A number that starts with `c`. Only an integer may have a suffix. -/
def numberLexeme (c : Char) (s : List Char) : Parsed Lexeme (s.length + 1) :=
  let p := numberSpan c s
  if isPlainInteger (c :: p.value) && startsWithSuffix p.rest then
    ⟨.number (c :: p.value) true, p.rest.drop 1, by grind⟩
  else ⟨.number (c :: p.value) false, p.rest, p.rest_lt⟩

/-! ### The first lexeme -/

/-- The first lexeme of a text that is not empty, and the text after it. -/
def Lexeme.first (c : Char) (s : List Char) :
    Except Unclosed (Parsed Lexeme (s.length + 1)) :=
  if c = '"' ∨ c = '\'' then
    match quotedSpan c s with
    | some p => .ok ⟨.quoted c p.value, p.rest, by grind⟩
    | none => .error ⟨.string, s.length + 1⟩
  else if c = '/' ∧ s.head? = some '/' then
    let line := lineSpan (s.drop 1)
    .ok ⟨.lineComment line.value, line.rest, by grind⟩
  else if c = '/' ∧ s.head? = some '*' then
    match blockSpan (s.drop 1) with
    | some p => .ok ⟨.blockComment p.value, p.rest, by grind⟩
    | none => .error ⟨.comment, s.length + 1⟩
  else if c = ',' then .ok ⟨.comma, s, by simp⟩
  else if c.isDigit ∨ (c = '-' ∧ s.head?.any Char.isDigit) then .ok (numberLexeme c s)
  else if isWordStart c then
    .ok ⟨.word (c :: s.takeWhile isWordPart), s.dropWhile isWordPart,
      Nat.lt_succ_of_le (List.dropWhile_sublist _).length_le⟩
  else .ok ⟨.symbol c, s, by simp⟩

end ZkCommand.Relaxed
