import ZkCommand.Json.Scan

/-!
# ZkCommand.Json.Number

**Numbers** are kept as they are written, with one exception: an exponent is introduced by a
small `e` and always has a sign. Nothing is computed, so no range limit applies, and `-0` keeps
its sign: where an unsigned integer is due it is refused as negative, and not read as zero.
-/

namespace ZkCommand.Json

open Text

/-- The longest run of digits and what follows it. -/
def digits (s : List Char) : Parsed (List Char) (s.length + 1) :=
  ⟨s.takeWhile Char.isDigit, s.dropWhile Char.isDigit,
    Nat.lt_succ_of_le (List.dropWhile_sublist _).length_le⟩

theorem digits_rest_lt (s : List Char) : (digits s).rest.length < s.length + 1 :=
  (digits s).rest_lt

/-- The integer part, without a sign: no digit follows a leading zero. -/
def integer : Reader (List Char)
  | [] => .error (.atEnd .endOfValue)
  | c :: s =>
      if c = '0' then
        match s with
        | [] => .ok ⟨['0'], [], length_nil_lt_cons c⟩
        | d :: r =>
            if d.isDigit then .error (.peek .invalidNumber (d :: r))
            else .ok ⟨['0'], d :: r, length_cons_lt_cons c d r⟩
      else if c.isDigit then
        let tail := digits s
        .ok ⟨c :: tail.value, tail.rest, digits_rest_lt s⟩
      else .error (.taking 1 .invalidNumber (c :: s))

theorem length_afterPoint_lt (r : List Char) :
    (digits r).rest.length < ('.' :: r).length + 1 :=
  Nat.lt_succ_of_lt (digits_rest_lt r)

/-- A point and at least one digit, if there is a point. -/
def fraction (s : List Char) : Except Failure (Parsed (List Char) (s.length + 1)) :=
  match s with
  | '.' :: r =>
      let tail := digits r
      if tail.value.isEmpty then
        .error (.peek (if r.isEmpty then .endOfValue else .invalidNumber) r)
      else .ok ⟨'.' :: tail.value, tail.rest, length_afterPoint_lt r⟩
  | s => .ok ⟨[], s, length_lt_succ s⟩

theorem length_afterPlus_lt (r : List Char) : r.length < ('+' :: r).length + 1 := by
  grind

theorem length_afterMinus_lt (r : List Char) : r.length < ('-' :: r).length + 1 := by
  grind

/-- The sign of an exponent; none stands for plus. -/
def exponentSign (s : List Char) : Parsed Char (s.length + 1) :=
  match s with
  | '+' :: r => ⟨'+', r, length_afterPlus_lt r⟩
  | '-' :: r => ⟨'-', r, length_afterMinus_lt r⟩
  | s => ⟨'+', s, length_lt_succ s⟩

theorem exponentSign_rest_lt (r : List Char) : (exponentSign r).rest.length < r.length + 1 :=
  (exponentSign r).rest_lt

theorem length_afterExponent_lt (c : Char) (r : List Char) (d : Char) (t : List Char)
    (short : (d :: t).length < r.length + 1) :
    (digits t).rest.length < (c :: r).length + 1 := by
  grind

/-- An exponent in its kept spelling, if there is one. -/
def exponent (s : List Char) : Except Failure (Parsed (List Char) (s.length + 1)) :=
  match s with
  | [] => .ok ⟨[], [], length_nil_lt_succ⟩
  | c :: r =>
      if c = 'e' ∨ c = 'E' then
        let sign := exponentSign r
        match sign.rest, exponentSign_rest_lt r with
        | [], _ => .error (.atEnd .endOfValue)
        | d :: t, short =>
            if d.isDigit then
              let tail := digits t
              .ok ⟨'e' :: sign.value :: d :: tail.value, tail.rest,
                length_afterExponent_lt c r d t short⟩
            else .error (.taking 1 .invalidNumber (d :: t))
      else .ok ⟨[], c :: r, length_cons_lt_succ c r⟩

/-- A number without its sign. -/
def unsignedNumber : Reader (List Char) := fun s => do
  let whole ← integer s
  let part ← fraction whole.rest
  let power ← exponent part.rest
  .ok ⟨whole.value ++ part.value ++ power.value, power.rest, by grind⟩

theorem length_afterSign_lt (s : List Char) (n : Parsed (List Char) s.length) :
    n.rest.length < ('-' :: s).length :=
  Nat.lt_succ_of_lt n.rest_lt

/-- A number, negative or not. -/
def number : Reader (List Char)
  | '-' :: s => do
      let n ← unsignedNumber s
      .ok ⟨'-' :: n.value, n.rest, length_afterSign_lt s n⟩
  | s => unsignedNumber s

end ZkCommand.Json
