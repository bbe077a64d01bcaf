import ZkCommand.Proofs.Witness.Exact

/-!
# ZkCommand.Proofs.Witness.Search

**Decoding by a search.** A second decoder of dumps looks for the next token that starts a word,
numbers what it finds by byte offsets, and takes the text between the end of one token and the start
of the next for a gap, in which there may only be white space. Gaps are slices, which can be cut
between characters only. They always are, and the search decodes what `decode` does
(`decodeBySearch_eq`): white space is no word and a token starts with a letter, so that every token
behind white space starts a word.
-/

namespace ZkCommand.Witness

open Text Grammar

/-! ### Searching -/

/-- A token that a search has found, between two byte offsets. -/
structure Match where
  start : Nat
  stop : Nat
  token : Token

/-- A word starts or ends in front of the character. -/
def isBoundary (previous : Option Char) (c : Char) : Bool :=
  previous.any isWordChar != isWordChar c

/-- The token at the front of `c :: s`, if it starts a word. -/
def matchAt? (previous : Option Char) (c : Char) (s : List Char) :
    Option (Parsed Token (c :: s).length) :=
  if isBoundary previous c then Token.first? (c :: s) else none

/-- The tokens that a search finds one behind the other. The text starts at a byte offset. -/
def matchesFrom (offset : Nat) (previous : Option Char) : List Char → List Match
  | [] => []
  | c :: s =>
      match matchAt? previous c s with
      | some p =>
          let stop := offset + (Utf8.size (c :: s) - Utf8.size p.rest)
          ⟨offset, stop, p.value⟩ :: matchesFrom stop (some '\x7d') p.rest
      | none => matchesFrom (offset + c.utf8Size) (some c) s
termination_by s => s.length
decreasing_by all_goals grind

/-- What is wrong with the text between two byte offsets if it is not white space. -/
def gapFault? (text : List Char) (start stop : Nat) : Option (Option Fault) := do
  let gap ← Utf8.slice? text start stop
  if gap.all isBlank then some none
  else do
    let skipped := Utf8.size (gap.takeWhile isBlank)
    let rest ← Utf8.slice? gap skipped (Utf8.size gap)
    some (some (.grammar (start + skipped) (String.ofList (rest.take snippetLength))))

/-- The primitives of matches with nothing but white space around them. -/
def collect (text : List Char) (cursor : Nat) : List Match → Option (Except Fault (List Primitive))
  | [] => do
      match ← gapFault? text cursor (Utf8.size text) with
      | some fault => some (.error fault)
      | none => some (.ok [])
  | m :: rest => do
      match ← gapFault? text cursor m.start with
      | some fault => some (.error fault)
      | none =>
          match m.token.decode m.start with
          | .error fault => some (.error fault)
          | .ok first => do
              let others ← collect text m.stop rest
              some (others.map (first :: ·))

/-- The primitives of a dump by a search; nothing if a slice is not cut between characters. -/
def decodeBySearch (text : String) : Option (Except Fault (List Primitive)) :=
  collect text.toList 0 (matchesFrom 0 none text.toList)

/-! ### Word boundaries -/

theorem isWordChar_of_isBlank {c : Char} (h : isBlank c = true) : isWordChar c = false := by
  have low : inRanges wordRangesLow c = false := inRanges_of_disjoint (by decide +kernel) h
  have middle : inRanges wordRangesMiddle c = false := inRanges_of_disjoint (by decide +kernel) h
  have upper : inRanges wordRangesUpper c = false := inRanges_of_disjoint (by decide +kernel) h
  have high : inRanges wordRangesHigh c = false := inRanges_of_disjoint (by decide +kernel) h
  rw [isWordChar, low, middle, upper, high]
  rfl

/-- Capital letters belong to words as small ones do. -/
theorem isWordChar_of_toLower {c : Char} (h : isWordChar c.toLower = true) :
    isWordChar c = true := by
  by_cases capital : c.val ≥ 'A'.val ∧ c.val ≤ 'Z'.val
  · have low : inRanges wordRangesLow c = true := by
      refine List.any_eq_true.mpr ⟨(0x41, 0x5a), by decide, ?_⟩
      have first : 0x41 ≤ c.toNat := UInt32.le_iff_toNat_le.mp capital.1
      have last : c.toNat ≤ 0x5a := UInt32.le_iff_toNat_le.mp capital.2
      simp [first, last]
    simp [isWordChar, low]
  · have same : c.toLower = c := dif_neg capital
    rwa [same] at h

/-- A token starts with a letter. -/
theorem isWordChar_of_first? {c : Char} {s : List Char} {p : Parsed Token (c :: s).length}
    (h : Token.first? (c :: s) = some p) : isWordChar c = true := by
  obtain ⟨frame, whole⟩ := exists_frame_of_first? h
  have word := frame.word_prefix p.value.value p.rest
  rw [← whole, List.map_cons] at word
  have letter : isWordChar (tagLetter c) = true := by
    cases tag : p.value.tag <;> rw [tag] at word <;>
      rw [← (List.cons_prefix_cons.mp word).1] <;> decide +kernel
  rw [tagLetter] at letter
  split at letter
  · rename_i long
    rw [long]
    decide +kernel
  · exact isWordChar_of_toLower letter

/-! ### Steps of a search -/

theorem matchAt?_of_first? {previous : Option Char} {c : Char} {s : List Char}
    {p : Parsed Token (c :: s).length} (free : previous.any isWordChar = false)
    (h : Token.first? (c :: s) = some p) : matchAt? previous c s = some p := by
  rw [matchAt?, isBoundary, free, isWordChar_of_first? h]
  exact h

theorem matchAt?_eq_none {previous : Option Char} {c : Char} {s : List Char}
    (h : Token.first? (c :: s) = none) : matchAt? previous c s = none := by
  rw [matchAt?, h, ite_self]

theorem isSome_matchAt? (previous c : Char) (s : List Char) :
    (matchAt? (some previous) c s).isSome
      = (!isWordChar previous && (Token.first? (c :: s)).isSome) := by
  cases found : Token.first? (c :: s) with
  | none => rw [matchAt?_eq_none found, Option.isSome_none, Bool.and_false]
  | some p =>
      rw [matchAt?, isBoundary, isWordChar_of_first? found, found, Option.any_some]
      cases isWordChar previous <;> rfl

/-- A search passes white space. -/
theorem matchesFrom_gap {previous : Option Char} {gap : List Char}
    (free : previous.any isWordChar = false) (blank : AllBlank gap) (offset : Nat)
    (s : List Char) :
    ∃ previous' : Option Char, previous'.any isWordChar = false ∧
      matchesFrom offset previous (gap ++ s)
        = matchesFrom (offset + Utf8.size gap) previous' s := by
  induction gap generalizing offset previous with
  | nil => exact ⟨previous, free, rfl⟩
  | cons c gap ih =>
      have white := isWordChar_of_isBlank (blank c List.mem_cons_self)
      have none : Token.first? (c :: (gap ++ s)) = none := by
        by_contra found
        obtain ⟨p, found⟩ := Option.ne_none_iff_exists'.mp found
        rw [isWordChar_of_first? found] at white
        cases white
      obtain ⟨previous', free', same⟩ := @ih (some c) white
        (fun d hd => blank d (List.mem_cons_of_mem c hd)) (offset + c.utf8Size)
      refine ⟨previous', free', ?_⟩
      rw [List.cons_append, matchesFrom, matchAt?_eq_none none]
      exact same.trans (by rw [Utf8.size, Nat.add_assoc])

/-- The characters that a search passes before the first token that it finds. -/
def passed (previous : Char) : List Char → List Char
  | [] => []
  | c :: s => if (matchAt? (some previous) c s).isSome then [] else c :: passed c s

theorem gap_eq_take (count : Nat) (previous : Char) (s : List Char) :
    gap count previous s = (passed previous s).take count := by
  induction s generalizing count previous with
  | nil => rw [gap.eq_def, passed, List.take_nil]
  | cons c s ih =>
      cases count with
      | zero => rw [gap, List.take_zero]
      | succ count =>
          rw [gap, passed, isSome_matchAt?, ih]
          split
          · rfl
          · rw [List.take_succ_cons]

theorem matchesFrom_passed (offset : Nat) (previous : Char) (s : List Char) :
    ∃ behind, s = passed previous s ++ behind ∧
      ((matchesFrom offset (some previous) s = [] ∧ behind = []) ∨
        ∃ m others, matchesFrom offset (some previous) s = m :: others ∧
          m.start = offset + Utf8.size (passed previous s)) := by
  induction s generalizing offset previous with
  | nil => exact ⟨[], rfl, .inl ⟨by rw [matchesFrom], rfl⟩⟩
  | cons c s ih =>
      rw [matchesFrom, passed]
      cases found : matchAt? (some previous) c s with
      | some p => exact ⟨c :: s, rfl, .inr ⟨_, _, rfl, rfl⟩⟩
      | none =>
          obtain ⟨behind, whole, rest⟩ := ih (offset + c.utf8Size) c
          refine ⟨behind, congrArg (c :: ·) whole, ?_⟩
          rcases rest with none | ⟨m, others, some, start⟩
          · exact .inl none
          · refine .inr ⟨m, others, some, start.trans ?_⟩
            exact Nat.add_assoc _ _ _

/-! ### Gaps -/

theorem gapFault?_of_allBlank (before : List Char) {gap : List Char} (blank : AllBlank gap)
    (after : List Char) :
    gapFault? (before ++ (gap ++ after)) (Utf8.size before)
      (Utf8.size before + Utf8.size gap) = some none := by
  rw [gapFault?, Utf8.slice?_append]
  exact if_pos (List.all_eq_true.mpr blank)

/-- The first character of a gap that is not white space, and what follows it there. -/
theorem gapFault?_of_visible (before : List Char) {gap : List Char} (blank : AllBlank gap)
    {c : Char} (visible : isBlank c = false) (run after : List Char) :
    gapFault? (before ++ (gap ++ c :: run ++ after)) (Utf8.size before)
        (Utf8.size before + Utf8.size (gap ++ c :: run))
      = some (some (.grammar (Utf8.size before + Utf8.size gap)
          (String.ofList ((c :: run).take snippetLength)))) := by
  have white : (gap ++ c :: run).takeWhile isBlank = gap :=
    (takeWhile_append_of_head blank (s := c :: run) visible).1
  have inside := Utf8.slice?_append gap (c :: run) []
  rw [List.append_nil, ← Utf8.size_append] at inside
  rw [gapFault?, Utf8.slice?_append]
  show (if (gap ++ c :: run).all isBlank then _ else _) = _
  rw [if_neg (by simp [visible]), white, inside]
  rfl

theorem snippet_cons (c : Char) (s : List Char) :
    snippet (c :: s) = (c :: passed c s).take snippetLength := by
  rw [snippet, gap_eq_take]
  rfl

/-! ### The same result -/

/-- Where no token starts, both decoders fail alike. -/
theorem collect_of_first?_eq_none {before gap r : List Char} {c : Char} {previous : Option Char}
    (blank : AllBlank gap) (visible : isBlank c = false) (none : Token.first? (c :: r) = none) :
    collect (before ++ (gap ++ c :: r)) (Utf8.size before)
        (matchesFrom (Utf8.size before + Utf8.size gap) previous (c :: r))
      = some (.error (.grammar (Utf8.size before + Utf8.size gap)
          (String.ofList (snippet (c :: r))))) := by
  obtain ⟨behind, whole, rest⟩ :=
    matchesFrom_passed (Utf8.size before + Utf8.size gap + c.utf8Size) c r
  have fault := gapFault?_of_visible before blank visible (passed c r) behind
  have text : gap ++ c :: r = gap ++ c :: passed c r ++ behind := by
    rw [List.append_assoc, List.cons_append, ← whole]
  have width : Utf8.size (gap ++ c :: passed c r)
      = Utf8.size gap + (c.utf8Size + Utf8.size (passed c r)) := Utf8.size_append _ _
  rw [← snippet_cons] at fault
  rw [matchesFrom, matchAt?_eq_none none, text]
  rcases rest with ⟨nothing, rfl⟩ | ⟨m, others, found, start⟩
  · have stop : Utf8.size (before ++ (gap ++ c :: passed c r ++ []))
        = Utf8.size before + Utf8.size (gap ++ c :: passed c r) := by
      rw [List.append_nil, Utf8.size_append]
    simp only [nothing, collect, stop, fault]
    rfl
  · have stop : m.start = Utf8.size before + Utf8.size (gap ++ c :: passed c r) := by
      rw [start, width]
      omega
    simp only [found, collect, stop, fault]
    rfl

/-- A token that is found is decoded, and the search goes on behind it. -/
theorem collect_of_first? (before : List Char) {gap r : List Char} {c : Char}
    {previous : Option Char} {p : Parsed Token (c :: r).length} (blank : AllBlank gap)
    (free : previous.any isWordChar = false) (found : Token.first? (c :: r) = some p) :
    ∃ front, before ++ (gap ++ c :: r) = front ++ p.rest ∧
      collect (before ++ (gap ++ c :: r)) (Utf8.size before)
          (matchesFrom (Utf8.size before + Utf8.size gap) previous (c :: r))
        = (match p.value.decode (Utf8.size before + Utf8.size gap) with
          | .error fault => some (.error fault)
          | .ok first => do
              let others ← collect (before ++ (gap ++ c :: r)) (Utf8.size front)
                (matchesFrom (Utf8.size front) (some '\x7d') p.rest)
              some (others.map (first :: ·))) := by
  obtain ⟨frame, token⟩ := exists_frame_of_first? found
  have stop : Utf8.size before + Utf8.size gap + (Utf8.size (c :: r) - Utf8.size p.rest)
      = Utf8.size (before ++ (gap ++ frame.source p.value.value)) := by
    have width := congrArg Utf8.size token
    rw [Utf8.size_append] at width
    rw [Utf8.size_append, Utf8.size_append]
    omega
  refine ⟨before ++ (gap ++ frame.source p.value.value), ?_, ?_⟩
  · rw [List.append_assoc, List.append_assoc]
    exact congrArg (fun u => before ++ (gap ++ u)) token
  · rw [matchesFrom, matchAt?_of_first? free found]
    simp only [collect, gapFault?_of_allBlank before blank (c :: r), stop]
    rfl

/-- By induction on the rest of the text: the cursor stands behind what is decoded, where no word
goes on. -/
theorem collect_matchesFrom {text before s : List Char} {previous : Option Char}
    (whole : text = before ++ s) (free : previous.any isWordChar = false) :
    collect text (Utf8.size before) (matchesFrom (Utf8.size before) previous s)
      = some (decodeFrom (Utf8.size text) s) := by
  induction hn : s.length using Nat.strongRecOn generalizing before s previous with
  | _ n ih =>
    subst whole
    rcases exists_front s with blank | ⟨⟨gap, blank⟩, c, r, rfl, visible⟩
    · obtain ⟨previous', -, same⟩ := matchesFrom_gap free blank (Utf8.size before) []
      have fault := gapFault?_of_allBlank before blank []
      rw [List.append_nil] at same fault
      rw [same, matchesFrom, collect, Utf8.size_append, fault, decodeFrom_of_allBlank blank]
      rfl
    · obtain ⟨previous', free', same⟩ := matchesFrom_gap free blank (Utf8.size before) (c :: r)
      have place : Utf8.size (before ++ (gap ++ c :: r)) - Utf8.size (c :: r)
          = Utf8.size before + Utf8.size gap := by
        rw [Utf8.size_append, Utf8.size_append, ← Nat.add_assoc, Nat.add_sub_cancel]
      rw [same, decodeFrom_gap blank visible, place]
      cases found : Token.first? (c :: r) with
      | none => exact collect_of_first?_eq_none blank visible found
      | some p =>
          obtain ⟨front, behind, step⟩ := collect_of_first? before blank free' found
          have shorter : p.rest.length < n := by
            have := p.rest_lt
            rw [List.length_append] at hn
            omega
          have brace : Option.any isWordChar (some '\x7d') = false := by decide +kernel
          rw [step, ih _ shorter behind brace rfl]
          dsimp only
          cases p.value.decode (Utf8.size before + Utf8.size gap) with
          | error fault => rfl
          | ok first =>
              cases decodeFrom (Utf8.size (before ++ (gap ++ c :: r))) p.rest <;> rfl

/-- **A search decodes what is decoded token by token**, and it cuts no slice inside a character. -/
theorem decodeBySearch_eq (text : String) : decodeBySearch text = some (decode text) :=
  @collect_matchesFrom text.toList [] text.toList none rfl rfl

end ZkCommand.Witness
