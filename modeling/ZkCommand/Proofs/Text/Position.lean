import Mathlib.Data.List.Induction
import ZkCommand.Proofs.Text
import ZkCommand.Text.Position

/-!
# ZkCommand.Proofs.Text.Position

**Lines and places.** The lines of a text stand between its line breaks, so there is one more of
them than there are breaks. A place behind `front` is on the line whose number is that of the breaks
in `front`, and its column tells how much of `front` is on that line, in characters
(`ofCharAfter_eq`) or in bytes (`ofByteCount_of_cuts`).
-/

namespace ZkCommand.Text

/-! ### Lines -/

/-- The lines of a text, without their line breaks. -/
def lines (s : List Char) : List (List Char) := s.splitOn '\n'

/-- What stands behind the last line break of a text. -/
def lastLine (s : List Char) : List Char := (s.reverse.takeWhile (· ≠ '\n')).reverse

/-- What stands in front of the first line break of a text. -/
def firstLine (s : List Char) : List Char := s.takeWhile (· ≠ '\n')

/-- The number of the line on which a text ends. -/
def lineNumber (s : List Char) : Nat := s.count '\n' + 1

theorem lineNumber_append (s t : List Char) :
    lineNumber (s ++ t) = lineNumber s + t.count '\n' := by
  rw [lineNumber, lineNumber, List.count_append]
  omega

theorem length_lines (s : List Char) : (lines s).length = lineNumber s := by
  rw [lines, lineNumber]
  induction s with
  | nil => rfl
  | cons c s ih =>
      rw [List.splitOn_cons_eq_if_modifyHead, List.count_cons]
      split
      · rw [List.length_cons, ih]
      · rw [List.length_modifyHead, ih, Nat.add_zero]

theorem getElem?_lines_zero (s : List Char) : (lines s)[0]? = some (firstLine s) := by
  rw [lines, firstLine]
  induction s with
  | nil => rfl
  | cons c s ih =>
      rw [List.splitOn_cons_eq_if_modifyHead]
      by_cases broken : c = '\n'
      · rw [if_pos (by simpa using broken), List.takeWhile_cons_of_neg (by simpa using broken)]
        rfl
      · rw [if_neg (by simpa using broken), List.takeWhile_cons_of_pos (by simpa using broken)]
        obtain ⟨first, others, split⟩ := List.exists_cons_of_ne_nil (List.splitOn_ne_nil '\n' s)
        rw [split] at ih ⊢
        exact congrArg (Option.map (c :: ·)) ih

theorem lastLine_concat_break (s : List Char) : lastLine (s ++ ['\n']) = [] := by
  simp [lastLine]

theorem lastLine_concat {c : Char} (other : c ≠ '\n') (s : List Char) :
    lastLine (s ++ [c]) = lastLine s ++ [c] := by
  simp [lastLine, other]

theorem lineNumber_concat_break (s : List Char) : lineNumber (s ++ ['\n']) = lineNumber s + 1 :=
  lineNumber_append s ['\n']

theorem lineNumber_concat {c : Char} (other : c ≠ '\n') (s : List Char) :
    lineNumber (s ++ [c]) = lineNumber s := by
  simp [lineNumber, other]

/-- **The line between two texts** is the last one of the first and the first one of the second. -/
theorem getElem?_lines_append (front back : List Char) :
    (lines (front ++ back))[front.count '\n']? = some (lastLine front ++ firstLine back) := by
  induction front using List.reverseRecOn generalizing back with
  | nil => exact getElem?_lines_zero back
  | append_singleton front c ih =>
      rw [List.append_assoc, List.singleton_append]
      by_cases broken : c = '\n'
      · obtain rfl := broken
        have split : lines (front ++ '\n' :: back) = lines front ++ lines back :=
          List.splitOn_append_cons_self front back
        have behind : (front ++ ['\n']).count '\n' = (lines front).length + 0 := by
          rw [length_lines, List.count_append]
          rfl
        rw [split, behind, List.getElem?_append_right (Nat.le_add_right _ _),
          Nat.add_sub_cancel_left, getElem?_lines_zero, lastLine_concat_break, List.nil_append]
      · have same : (front ++ [c]).count '\n' = front.count '\n' := by simp [broken]
        have first : firstLine (c :: back) = c :: firstLine back :=
          List.takeWhile_cons_of_pos (by simpa using broken)
        rw [same, ih, first, lastLine_concat broken, List.append_assoc, List.singleton_append]

/-- A text ends at the start of a line: nothing of its last line is there. -/
theorem lastLine_eq_nil_iff {s : List Char} :
    lastLine s = [] ↔ s = [] ∨ ∃ front, s = front ++ ['\n'] := by
  induction s using List.reverseRecOn with
  | nil => simp [lastLine]
  | append_singleton s c ih =>
      by_cases broken : c = '\n'
      · obtain rfl := broken
        exact iff_of_true (lastLine_concat_break s) (.inr ⟨s, rfl⟩)
      · rw [lastLine_concat broken]
        refine iff_of_false (by simp) ?_
        rintro (empty | ⟨front, same⟩)
        · simp at empty
        · exact broken (List.append_inj_right' same rfl |> List.singleton_inj.mp)

theorem Utf8.size_eq_zero_iff {s : List Char} : size s = 0 ↔ s = [] := by
  cases s with
  | nil => exact iff_of_true rfl rfl
  | cons c s =>
      have := c.utf8Size_pos
      simp only [size, List.cons_ne_nil, iff_false]
      omega

/-! ### Places -/

namespace Position

/-- A place is on a line of a text, at a column that the line has or that is one past its end, where
the line is as long as `width` says. -/
def Within (width : List Char → Nat) (s : List Char) (p : Position) : Prop :=
  1 ≤ p.line ∧ p.line ≤ (lines s).length ∧
    ∃ line, (lines s)[p.line - 1]? = some line ∧ p.column ≤ width line + 1

/-- The place behind a text, characters counted from one. -/
theorem ofCharAfter_eq (front : List Char) :
    ofCharAfter front = ⟨lineNumber front, (lastLine front).length + 1⟩ := by
  induction front using List.reverseRecOn with
  | nil => rfl
  | append_singleton front c ih =>
      rw [ofCharAfter, List.foldl_append, ← ofCharAfter, ih]
      show past 1 1 _ c = _
      by_cases broken : c = '\n'
      · obtain rfl := broken
        rw [past, if_pos rfl, lineNumber_concat_break, lastLine_concat_break]
        rfl
      · rw [past, if_neg broken, lineNumber_concat broken, lastLine_concat broken,
          List.length_append]
        rfl

theorem within_of_line {width : List Char → Nat} {front back : List Char} {column : Nat}
    (bound : column ≤ width (lastLine front ++ firstLine back) + 1) :
    Within width (front ++ back) ⟨lineNumber front, column⟩ := by
  refine ⟨Nat.le_add_left 1 _, ?_, _, getElem?_lines_append front back, bound⟩
  show lineNumber front ≤ _
  rw [length_lines, lineNumber_append]
  exact Nat.le_add_right _ _

/-- The place of a character of a text. -/
theorem within_ofCharAfter (front back : List Char) :
    Within List.length (front ++ back) (ofCharAfter front) := by
  rw [ofCharAfter_eq]
  refine within_of_line ?_
  rw [List.length_append]
  omega

/-- So many bytes of a text end behind `front`, or `inside` the character behind it. -/
structure Cuts (s : List Char) (count : Nat) (front back : List Char) (inside : Nat) : Prop where
  text : s = front ++ back
  count : count = Utf8.size front + inside
  inside : inside = 0 ∨ ∃ c ∈ back.head?, inside < c.utf8Size

theorem past_bytes (before : List Char) (c : Char) :
    past c.utf8Size 0 ⟨lineNumber before, Utf8.size (lastLine before)⟩ c
      = ⟨lineNumber (before ++ [c]), Utf8.size (lastLine (before ++ [c]))⟩ := by
  by_cases broken : c = '\n'
  · obtain rfl := broken
    rw [past, if_pos rfl, lineNumber_concat_break, lastLine_concat_break]
    rfl
  · rw [past, if_neg broken, lineNumber_concat broken, lastLine_concat broken, Utf8.size_append]
    rfl

/-- Up to a count of bytes there are whole characters, and perhaps a part of one. -/
theorem exists_cuts {s : List Char} {count : Nat} (h : count ≤ Utf8.size s) :
    ∃ front back inside, Cuts s count front back inside := by
  induction s generalizing count with
  | nil =>
      obtain rfl := Nat.le_zero.mp h
      exact ⟨[], [], 0, rfl, rfl, .inl rfl⟩
  | cons c s ih =>
      by_cases short : count < c.utf8Size
      · exact ⟨[], c :: s, count, rfl, (Nat.zero_add _).symm, .inr ⟨c, rfl, short⟩⟩
      · rw [Utf8.size] at h
        have rest : count - c.utf8Size ≤ Utf8.size s := by omega
        obtain ⟨front, back, inside, text, fits, small⟩ := ih rest
        have whole : count = Utf8.size (c :: front) + inside := by
          clear small
          rw [Utf8.size]
          omega
        exact ⟨c :: front, back, inside, congrArg (c :: ·) text, whole, small⟩

theorem afterBytes_of_cuts (before : List Char) {s front back : List Char} {count inside : Nat}
    (h : Cuts s count front back inside) :
    afterBytes ⟨lineNumber before, Utf8.size (lastLine before)⟩ s count
      = ⟨lineNumber (before ++ front), Utf8.size (lastLine (before ++ front)) + inside⟩ := by
  obtain ⟨rfl, rfl, small⟩ := h
  induction front generalizing before with
  | nil =>
      rw [List.nil_append, List.append_nil, Utf8.size, Nat.zero_add]
      cases back with
      | nil =>
          obtain rfl := small.resolve_right (by simp)
          rfl
      | cons c back =>
          have short : inside < c.utf8Size := by
            rcases small with rfl | ⟨d, head, short⟩
            · exact c.utf8Size_pos
            · obtain rfl : c = d := Option.some.inj head
              exact short
          rw [afterBytes, if_pos short]
  | cons c front ih =>
      have long : ¬ Utf8.size (c :: front) + inside < c.utf8Size := by
        rw [Utf8.size]
        omega
      have rest : Utf8.size (c :: front) + inside - c.utf8Size = Utf8.size front + inside := by
        rw [Utf8.size]
        omega
      rw [List.cons_append, afterBytes, if_neg long, rest, past_bytes, ih, List.append_assoc,
        List.singleton_append]

/-- **The place where so many bytes end.** -/
theorem ofByteCount_of_cuts {s front back : List Char} {count inside : Nat}
    (h : Cuts s count front back inside) :
    ofByteCount s count = ⟨lineNumber front, Utf8.size (lastLine front) + inside⟩ :=
  afterBytes_of_cuts [] h

/-- A character of more than one byte is no line break. -/
theorem Cuts.inside_le {s front back : List Char} {count inside : Nat}
    (h : Cuts s count front back inside) : inside ≤ Utf8.size (firstLine back) := by
  rcases h.inside with rfl | ⟨c, head, short⟩
  · exact Nat.zero_le _
  · cases back with
    | nil => cases head
    | cons d back =>
        obtain rfl : d = c := Option.some.inj head
        by_cases broken : d = '\n'
        · obtain rfl := broken
          have small : inside < 1 := short
          omega
        · rw [firstLine, List.takeWhile_cons_of_pos (by simpa using broken), Utf8.size]
          omega

/-- Bytes of a text end within it, and no further to the right than the line is long. -/
theorem within_ofByteCount {s : List Char} {count : Nat} (h : count ≤ Utf8.size s) :
    Within Utf8.size s (ofByteCount s count) := by
  obtain ⟨front, back, inside, cuts⟩ := exists_cuts h
  rw [ofByteCount_of_cuts cuts, cuts.text]
  refine within_of_line ?_
  have := cuts.inside_le
  rw [Utf8.size_append]
  omega

/-- The column is zero where nothing of a line has been read. -/
theorem column_ofByteCount_eq_zero_iff {s : List Char} {count : Nat} (h : count ≤ Utf8.size s) :
    (ofByteCount s count).column = 0 ↔
      ∃ front back, s = front ++ back ∧ count = Utf8.size front ∧ lastLine front = [] := by
  constructor
  · intro zero
    obtain ⟨front, back, inside, cuts⟩ := exists_cuts h
    rw [ofByteCount_of_cuts cuts] at zero
    obtain ⟨none, rfl⟩ := Nat.add_eq_zero_iff.mp zero
    exact ⟨front, back, cuts.text, cuts.count, Utf8.size_eq_zero_iff.mp none⟩
  · rintro ⟨front, back, text, count, start⟩
    rw [ofByteCount_of_cuts ⟨text, count, .inl rfl⟩, start]
    rfl

end Position

end ZkCommand.Text
