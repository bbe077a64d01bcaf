import ZkCommand.Relaxed.Read

/-!
# ZkCommand.Proofs.Relaxed.Grammar

**The grammar of relaxed notation**, as concrete syntax trees. A syntax tree keeps everything that
the writer of a text decides: the gaps between tokens, the quotes and escapes of every string, the
spelling of every number, whether a key is quoted, whether a comma follows the last item. What the
grammar forbids cannot be built. `source` is the text of a syntax tree, `tree` the value that it
denotes, and `depth` how far lists and mappings are nested in it. A mapping that starts with the key
of a number denotes no mapping: a value without such mappings is `Ordinary`.

Half of a surrogate pair denotes no character, so the escapes of strings are those of code points
outside the surrogates and of whole pairs.
-/

namespace ZkCommand.Relaxed.Grammar

/-! ### Gaps -/

/-- A block comment ends in a text. -/
def closesBlock : List Char → Bool
  | '*' :: '/' :: _ => true
  | _ :: rest => closesBlock rest
  | [] => false

/-- A piece of the space between two tokens: a white space character, a comment up to the end of
its line, or a comment between marks. -/
inductive Filler
  | space (c : Char) (isSpace : c = ' ' ∨ c = '\t' ∨ c = '\r' ∨ c = '\n')
  | line (body : List Char) (oneLine : '\n' ∉ body)
  | block (body : List Char) (unclosed : closesBlock body = false)

/-- The text of a filler. -/
def Filler.source : Filler → List Char
  | .space c _ => [c]
  | .line body _ => '/' :: '/' :: (body ++ ['\n'])
  | .block body _ => '/' :: '*' :: (body ++ ['*', '/'])

/-- A blank. -/
def Filler.blank : Filler := .space ' ' (.inl rfl)

/-- A line break. -/
def Filler.lineBreak : Filler := .space '\n' (.inr (.inr (.inr rfl)))

/-- The space between two tokens. -/
abbrev Gap := List Filler

/-- The text of a gap. -/
def Gap.source (gap : Gap) : List Char := gap.flatMap Filler.source

/-! ### Strings -/

/-- The letters after a backslash that JSON knows, other than that of a code. -/
inductive Letter
  | quote
  | backslash
  | slash
  | b
  | f
  | n
  | r
  | t

/-- The letter itself. -/
def Letter.source : Letter → Char
  | .quote => '"'
  | .backslash => '\\'
  | .slash => '/'
  | .b => 'b'
  | .f => 'f'
  | .n => 'n'
  | .r => 'r'
  | .t => 't'

/-- The character that a letter stands for. -/
def Letter.char : Letter → Char
  | .quote => '"'
  | .backslash => '\\'
  | .slash => '/'
  | .b => '\x08'
  | .f => '\x0c'
  | .n => '\n'
  | .r => '\r'
  | .t => '\t'

/-- A hexadecimal digit in either case. -/
structure HexDigit where
  value : Fin 16
  capital : Bool

/-- The text of a hexadecimal digit. -/
def HexDigit.source (d : HexDigit) : Char :=
  if d.value.val < 10 then Char.ofNat (48 + d.value.val)
  else if d.capital then Char.ofNat (55 + d.value.val)
  else Char.ofNat (87 + d.value.val)

/-- Four hexadecimal digits. -/
structure Code where
  first : HexDigit
  second : HexDigit
  third : HexDigit
  fourth : HexDigit

/-- The number that a code stands for. -/
def Code.value (code : Code) : Nat :=
  ((code.first.value.val * 16 + code.second.value.val) * 16 + code.third.value.val) * 16
    + code.fourth.value.val

/-- The text of a code. -/
def Code.source (code : Code) : List Char :=
  [code.first.source, code.second.source, code.third.source, code.fourth.source]

/-- A piece of a string between two delimiters of a kind. -/
inductive Piece (delimiter : Char)
  /-- A character that stands for itself. -/
  | plain (c : Char) (printable : 0x20 ≤ c.toNat) (ordinary : c ≠ '\\' ∧ c ≠ delimiter)
  /-- A letter after a backslash. -/
  | letter (e : Letter)
  /-- A single quote after a backslash. -/
  | apostrophe
  /-- A code point by its code. -/
  | code (digits : Code) (scalar : digits.value < 0xd800 ∨ 0xdfff < digits.value)
  /-- A code point beyond the basic plane by two codes. -/
  | pair (high low : Code) (isHigh : 0xd800 ≤ high.value ∧ high.value ≤ 0xdbff)
      (isLow : 0xdc00 ≤ low.value ∧ low.value ≤ 0xdfff)

/-- The text of a piece. -/
def Piece.source {delimiter : Char} : Piece delimiter → List Char
  | .plain c _ _ => [c]
  | .letter e => ['\\', e.source]
  | .apostrophe => ['\\', '\'']
  | .code digits _ => '\\' :: 'u' :: digits.source
  | .pair high low _ _ => '\\' :: 'u' :: (high.source ++ '\\' :: 'u' :: low.source)

/-- The character that a piece denotes. -/
def Piece.char {delimiter : Char} : Piece delimiter → Char
  | .plain c _ _ => c
  | .letter e => e.char
  | .apostrophe => '\''
  | .code digits _ => Char.ofNat digits.value
  | .pair high low _ _ =>
      Char.ofNat (0x10000 + (high.value - 0xd800) * 0x400 + (low.value - 0xdc00))

/-- A string in double or single quotes. -/
structure Quoted where
  delimiter : Char
  isQuote : delimiter = '"' ∨ delimiter = '\''
  pieces : List (Piece delimiter)

/-- The text of a string. -/
def Quoted.source (q : Quoted) : List Char :=
  q.delimiter :: (q.pieces.flatMap Piece.source ++ [q.delimiter])

/-- The text that a string denotes. -/
def Quoted.text (q : Quoted) : String := String.ofList (q.pieces.map Piece.char)

/-! ### Numbers -/

/-- At least one digit. -/
structure Digits where
  chars : List Char
  nonempty : chars ≠ []
  areDigits : ∀ c ∈ chars, c.isDigit = true

/-- The text of an optional minus sign. -/
def minus (negative : Bool) : List Char := if negative then ['-'] else []

/-- An integer: no digit follows a leading zero. -/
structure Integer where
  negative : Bool
  digits : Digits
  noLeadingZero : digits.chars.head? = some '0' → digits.chars = ['0']

/-- The text of an integer, which is also what it denotes. -/
def Integer.source (n : Integer) : List Char := minus n.negative ++ n.digits.chars

/-- An exponent: its mark in either case, its sign if one is given, and its digits. -/
structure Exponent where
  capital : Bool
  sign : Option Bool
  digits : Digits

/-- The sign of an exponent that has one: minus if it is negative. -/
def signChar (negative : Bool) : Char := if negative then '-' else '+'

/-- The text of an exponent. -/
def Exponent.source (e : Exponent) : List Char :=
  (if e.capital then 'E' else 'e') :: ((e.sign.map signChar).toList ++ e.digits.chars)

/-- The spelling in which an exponent is kept: a small mark and always a sign. -/
def Exponent.kept (e : Exponent) : List Char :=
  'e' :: (e.sign.map signChar).getD '+' :: e.digits.chars

/-- A number. -/
structure Number where
  whole : Integer
  fraction : Option Digits
  exponent : Option Exponent

/-- The text of a fraction. -/
def fractionSource : Option Digits → List Char
  | none => []
  | some digits => '.' :: digits.chars

/-- The text of a number. -/
def Number.source (n : Number) : List Char :=
  n.whole.source ++ fractionSource n.fraction ++ (n.exponent.map Exponent.source).getD []

/-- The digits that a number denotes. -/
def Number.kept (n : Number) : List Char :=
  n.whole.source ++ fractionSource n.fraction ++ (n.exponent.map Exponent.kept).getD []

/-! ### Keys -/

/-- The name of a key without quotes. -/
structure Name where
  first : Char
  rest : List Char
  isStart : first.isAlpha = true ∨ first = '_' ∨ first = '$'
  areParts : ∀ c ∈ rest, c.isAlphanum = true ∨ c = '_' ∨ c = '$'

/-- A key. -/
inductive Key
  | name (word : Name)
  | quoted (q : Quoted)

/-- The text of a key. -/
def Key.source : Key → List Char
  | .name word => word.first :: word.rest
  | .quoted q => q.source

/-- The text that a key denotes. -/
def Key.text : Key → String
  | .name word => String.ofList (word.first :: word.rest)
  | .quoted q => q.text

/-! ### Values -/

mutual

/-- A value. -/
inductive Value
  | null
  | undefined
  | bool (b : Bool)
  | number (n : Number)
  /-- An integer with the suffix `n`. -/
  | big (n : Integer)
  | string (q : Quoted)
  | emptyList (inside : Gap)
  | list (items : Items)
  | emptyMapping (inside : Gap)
  | mapping (entries : Entries)

/-- The items of a list that has any, with the gaps around them. After the last one there may be a
comma, and a gap after that. -/
inductive Items
  | last (before : Gap) (value : Value) (after : Gap) (trailing : Option Gap)
  | more (before : Gap) (value : Value) (after : Gap) (rest : Items)

/-- The entries of a mapping that has any. -/
inductive Entries
  | last (before : Gap) (key : Key) (afterKey beforeValue : Gap) (value : Value) (after : Gap)
      (trailing : Option Gap)
  | more (before : Gap) (key : Key) (afterKey beforeValue : Gap) (value : Value) (after : Gap)
      (rest : Entries)

end

/-- The text of a trailing comma and the gap after it. -/
def trailingSource : Option Gap → List Char
  | none => []
  | some gap => ',' :: gap.source

mutual

/-- The text of a value. -/
def Value.source : Value → List Char
  | .null => ['n', 'u', 'l', 'l']
  | .undefined => ['u', 'n', 'd', 'e', 'f', 'i', 'n', 'e', 'd']
  | .bool true => ['t', 'r', 'u', 'e']
  | .bool false => ['f', 'a', 'l', 's', 'e']
  | .number n => n.source
  | .big n => n.source ++ ['n']
  | .string q => q.source
  | .emptyList inside => '[' :: (inside.source ++ [']'])
  | .list items => '[' :: (items.source ++ [']'])
  | .emptyMapping inside => '\x7b' :: (inside.source ++ ['\x7d'])
  | .mapping entries => '\x7b' :: (entries.source ++ ['\x7d'])

/-- The text between the brackets of a list. -/
def Items.source : Items → List Char
  | .last before value after trailing =>
      before.source ++ value.source ++ after.source ++ trailingSource trailing
  | .more before value after rest =>
      before.source ++ value.source ++ after.source ++ ',' :: rest.source

/-- The text between the braces of a mapping. -/
def Entries.source : Entries → List Char
  | .last before key afterKey beforeValue value after trailing =>
      before.source ++ key.source ++ afterKey.source ++ ':' :: (beforeValue.source ++ value.source
        ++ after.source ++ trailingSource trailing)
  | .more before key afterKey beforeValue value after rest =>
      before.source ++ key.source ++ afterKey.source ++ ':' :: (beforeValue.source ++ value.source
        ++ after.source ++ ',' :: rest.source)

end

/-- The mapping of entries in the order of their source: a repeated key keeps its first place and
has its last value. -/
def mappingOf (entries : List (String × Tree)) : List (String × Tree) :=
  (entries.map Prod.fst).eraseDups.filterMap fun key =>
    (Tree.find? key entries.reverse).map fun value => (key, value)

mutual

/-- The tree that a value denotes. -/
def Value.tree : Value → Tree
  | .null => .null
  | .undefined => .null
  | .bool b => .bool b
  | .number n => .num (String.ofList n.kept)
  | .big n => .num (String.ofList n.source)
  | .string q => .str q.text
  | .emptyList _ => .list []
  | .list items => .list items.trees
  | .emptyMapping _ => .map []
  | .mapping entries => .map (mappingOf entries.pairs)

/-- The trees of the items of a list. -/
def Items.trees : Items → List Tree
  | .last _ value _ _ => [value.tree]
  | .more _ value _ rest => value.tree :: rest.trees

/-- The keys and values of a mapping. -/
def Entries.pairs : Entries → List (String × Tree)
  | .last _ key _ _ value _ _ => [(key.text, value.tree)]
  | .more _ key _ _ value _ rest => (key.text, value.tree) :: rest.pairs

end

mutual

/-- How many lists and mappings enclose one another in a value. -/
def Value.depth : Value → Nat
  | .emptyList _ => 1
  | .list items => items.depth + 1
  | .emptyMapping _ => 1
  | .mapping entries => entries.depth + 1
  | _ => 0

/-- The greatest depth of an item. -/
def Items.depth : Items → Nat
  | .last _ value _ _ => value.depth
  | .more _ value _ rest => max value.depth rest.depth

/-- The greatest depth of a value under a key. -/
def Entries.depth : Entries → Nat
  | .last _ _ _ _ value _ _ => value.depth
  | .more _ _ _ _ value _ rest => max value.depth rest.depth

end

/-- The key of the first entry. -/
def Entries.firstKey : Entries → Key
  | .last _ key _ _ _ _ _ => key
  | .more _ key _ _ _ _ _ => key

mutual

/-- No mapping in a value starts with the key of a number. -/
def Value.Ordinary : Value → Prop
  | .list items => items.Ordinary
  | .mapping entries => entries.firstKey.text ≠ Json.numberKey ∧ entries.Ordinary
  | _ => True

/-- The items are ordinary. -/
def Items.Ordinary : Items → Prop
  | .last _ value _ _ => value.Ordinary
  | .more _ value _ rest => value.Ordinary ∧ rest.Ordinary

/-- The values under the keys are ordinary. -/
def Entries.Ordinary : Entries → Prop
  | .last _ _ _ _ value _ _ => value.Ordinary
  | .more _ _ _ _ value _ rest => value.Ordinary ∧ rest.Ordinary

end

/-! ### Documents -/

/-- A whole text: a value with gaps around it, and perhaps a comment on a last line that no line
break ends. -/
structure Document where
  before : Gap
  value : Value
  after : Gap
  lastLine : Option (List Char)
  oneLine : ∀ body ∈ lastLine, '\n' ∉ body

/-- The text of a comment on the last line. -/
def lastLineSource : Option (List Char) → List Char
  | none => []
  | some body => '/' :: '/' :: body

/-- The text of a document. -/
def Document.source (d : Document) : List Char :=
  d.before.source ++ d.value.source ++ d.after.source ++ lastLineSource d.lastLine

end ZkCommand.Relaxed.Grammar
