/-!
# ZkCommand.Text.Parsed

**What a reader returns.** A reader takes a value off the front of a text and hands back the
rest. The bound on the length of the rest is part of the result, so that every loop over a
reader ends for a reason that its caller can see.
-/

namespace ZkCommand.Text

/-- A value taken off a text, and the rest of the text, shorter than a bound. -/
structure Parsed (α : Type) (bound : Nat) where
  value : α
  rest : List Char
  rest_lt : rest.length < bound

theorem Parsed.length_rest_lt {α : Type} {bound : Nat} (p : Parsed α bound) :
    p.rest.length < bound := p.rest_lt

grind_pattern Parsed.length_rest_lt => p.rest

/-! ### Bounds of a rest -/

theorem length_lt_succ (s : List Char) : s.length < s.length + 1 := Nat.lt_succ_self _

theorem length_nil_lt_succ : ([] : List Char).length < ([] : List Char).length + 1 :=
  Nat.lt_succ_self _

theorem length_cons_lt_succ (c : Char) (s : List Char) : (c :: s).length < (c :: s).length + 1 :=
  Nat.lt_succ_self _

theorem length_lt_cons (c : Char) (s : List Char) : s.length < (c :: s).length :=
  Nat.lt_succ_self _

theorem length_nil_lt_cons (c : Char) : ([] : List Char).length < [c].length := Nat.lt_succ_self _

theorem length_cons_lt_cons (c d : Char) (s : List Char) : (d :: s).length < (c :: d :: s).length :=
  Nat.lt_succ_self _

theorem length_lt_of_cons_lt_succ (s : List Char) (c : Char) (r : List Char)
    (short : (c :: r).length < s.length + 1) : r.length < s.length := by
  grind

end ZkCommand.Text
