import ZkCommand.Relaxed.Lexeme

/-!
# ZkCommand.Relaxed.Normalise

**From relaxed notation to JSON.** Each lexeme is written as JSON wants it, and what a comma or a
word becomes depends on the next significant character, the first one outside white space and
comments. Comments leave their line breaks behind, so every lexeme keeps its line.
-/

namespace ZkCommand.Relaxed

open Text

/-! ### Lookahead -/

/-- The text after a block comment whose opener has been read, empty if it never ends. -/
def afterBlock (s : List Char) : List Char :=
  match blockSpan s with
  | some p => p.rest
  | none => []

theorem length_afterBlock_le (s : List Char) : (afterBlock s).length ≤ s.length := by
  unfold afterBlock
  split
  · rename_i p _
    exact Nat.le_of_lt p.rest_lt
  · simp

/-- The first character that is neither white space nor in a comment. -/
def nextSignificant : List Char → Option Char
  | [] => none
  | c :: s =>
      if isBlank c then nextSignificant s
      else if c = '/' ∧ s.head? = some '/' then nextSignificant (lineSpan s).rest
      else if c = '/' ∧ s.head? = some '*' then nextSignificant (afterBlock (s.drop 1))
      else some c
termination_by s => s.length
decreasing_by all_goals grind [length_afterBlock_le]

/-! ### Writing lexemes -/

/-- The body of a string in double quotes: the escape of a single quote, which JSON lacks, is
resolved, and a bare double quote is escaped. -/
def strictBody : List Char → List Char
  | [] => []
  | '\\' :: '\'' :: rest => '\'' :: strictBody rest
  | '\\' :: c :: rest => '\\' :: c :: strictBody rest
  | '"' :: rest => '\\' :: '"' :: strictBody rest
  | c :: rest => c :: strictBody rest

/-- A word before a colon is a key; `undefined` elsewhere is null. -/
def strictWord (name rest : List Char) : List Char :=
  if nextSignificant rest = some ':' then '"' :: (name ++ ['"'])
  else if name = "undefined".toList then "null".toList
  else name

/-- The JSON text of a lexeme that is followed by `rest`. A comma before a closing bracket or
brace is dropped. -/
def Lexeme.strict (rest : List Char) : Lexeme → List Char
  | .quoted _ body => '"' :: (strictBody body ++ ['"'])
  | .lineComment _ => []
  | .blockComment body => body.filter (· = '\n')
  | .comma =>
      if nextSignificant rest = some '\x7d' ∨ nextSignificant rest = some ']' then [] else [',']
  | .number literal _ => literal
  | .word name => strictWord name rest
  | .symbol c => [c]

/-- The JSON text of a relaxed text. -/
def normalise : List Char → Except Unclosed (List Char)
  | [] => .ok []
  | c :: s => do
      let lexeme ← Lexeme.first c s
      let tail ← normalise lexeme.rest
      .ok (lexeme.value.strict lexeme.rest ++ tail)
termination_by s => s.length
decreasing_by exact lexeme.rest_lt

end ZkCommand.Relaxed
