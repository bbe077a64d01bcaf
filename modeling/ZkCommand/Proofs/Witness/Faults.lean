import ZkCommand.Proofs.Witness.Search

/-!
# ZkCommand.Proofs.Witness.Faults

**Where a dump stops being one.** A dump that is refused for its grammar is the text of a dump up to
the offset of the fault (`decodeFrom_grammar`): the tokens in front of it are tokens of the grammar,
and those are found whatever follows them, so that they are found again where the text is cut.
-/

namespace ZkCommand.Witness

open Text Grammar

/-! ### Faults of values -/

theorem exists_of_mapM_eq_error {ε α β : Type} {read : α → Except ε β} {items : List α} {fault : ε}
    (h : items.mapM read = .error fault) : ∃ a ∈ items, read a = .error fault := by
  induction items with
  | nil => cases h
  | cons a items ih =>
      rw [List.mapM_cons] at h
      rcases bind_eq_error_iff.mp h with first | ⟨b, -, h⟩
      · exact ⟨a, List.mem_cons_self, first⟩
      · rcases bind_eq_error_iff.mp h with others | ⟨bs, -, h⟩
        · obtain ⟨a', inside, failed⟩ := ih others
          exact ⟨a', List.mem_cons_of_mem a inside, failed⟩
        · cases h

/-- A token whose type cannot hold its value is no fault of the grammar. -/
theorem decode_ne_grammar (place : Nat) (t : Token) (offset : Nat) (snippet : String) :
    t.decode place ≠ .error (.grammar offset snippet) := by
  intro h
  have unsigned (tag : Tag) (width : Nat) :
      decodeUnsigned tag width t.value ≠ .error (.grammar offset snippet) := by
    intro h
    rw [decodeUnsigned] at h
    split at h <;> cases h
  rw [Token.decode] at h
  split at h
  · rw [decodeBool] at h
    split at h
    · cases h
    · split at h <;> cases h
  · exact unsigned _ _ h
  · exact unsigned _ _ h
  · rw [decodeBytes] at h
    split at h
    · cases h
    · rcases bind_eq_error_iff.mp h with read | ⟨bytes, -, h⟩
      · obtain ⟨entry, -, failed⟩ := exists_of_mapM_eq_error read
        rw [decodeByte] at failed
        split at failed <;> cases failed
      · split at h <;> cases h

/-! ### Faults of the grammar -/

/-- In front of a fault of the grammar stands a dump, and no token behind it. -/
theorem decodeFrom_grammar {total offset : Nat} {s : List Char} {start : String}
    (h : decodeFrom total s = .error (.grammar offset start)) :
    ∃ (d : Dump) (c : Char) (r : List Char), s = d.source ++ c :: r ∧ isBlank c = false ∧
      Token.first? (c :: r) = none ∧ offset = total - Utf8.size (c :: r) ∧
      start = String.ofList (snippet (c :: r)) := by
  induction hn : s.length using Nat.strongRecOn generalizing s with
  | _ n ih =>
    rcases exists_front s with blank | ⟨gap, c, r, rfl, visible⟩
    · rw [decodeFrom_of_allBlank blank] at h
      cases h
    · rw [decodeFrom_gap gap.blank visible] at h
      cases found : Token.first? (c :: r) with
      | none =>
          -- The fault is here, and the dump in front of it ends with the white space.
          rw [found] at h
          cases h
          exact ⟨.finish gap, c, r, rfl, visible, found, rfl, rfl⟩
      | some p =>
          rw [found] at h
          rcases bind_eq_error_iff.mp h with first | ⟨first, decoded, h⟩
          · exact absurd first (decode_ne_grammar _ _ _ _)
          rcases bind_eq_error_iff.mp h with others | ⟨others, -, h⟩
          · have shorter : p.rest.length < n := by
              have := p.rest_lt
              rw [List.length_append] at hn
              omega
            obtain ⟨d, c', r', source, rest⟩ := ih p.rest.length shorter others rfl
            obtain ⟨frame, token⟩ := exists_frame_of_first? found
            obtain ⟨value, valueSource, -⟩ := decode_eq_ok_iff.mp decoded
            refine ⟨.more gap ⟨p.value.tag, frame, value⟩ d, c', r', ?_, rest⟩
            rw [Dump.source, Grammar.Token.source, valueSource, List.append_assoc,
              List.append_assoc, ← source]
            exact congrArg (gap.chars ++ ·) token
          · cases h

theorem snippet_prefix (c : Char) (s : List Char) : snippet (c :: s) <+: c :: s := by
  obtain ⟨behind, whole, -⟩ := matchesFrom_passed 0 c s
  have front : passed c s <+: s := ⟨behind, whole.symm⟩
  rw [snippet_cons]
  exact (List.take_prefix _ _).trans (List.cons_prefix_cons.mpr ⟨rfl, front⟩)

/-! ### Where they are -/

/-- **A fault of the grammar marks where the dump in front of it ends.** Its offset is between two
characters, the second of which is visible; what stands before is decoded, nothing behind has the
form of a token, and the snippet is a start of that. The offsets at which the search cuts are
between characters, too. -/
theorem decode_grammar_fault (text : String) :
    decodeBySearch text = some (decode text) ∧
      ∀ (offset : Nat) (start : String), decode text = .error (.grammar offset start) →
        ∃ (before : List Char) (c : Char) (after : List Char),
          text.toList = before ++ c :: after ∧ Utf8.size before = offset ∧ isBlank c = false ∧
          (∃ primitives, decode (String.ofList before) = .ok primitives) ∧
          (∀ (tag : Tag) (frame : Frame tag) (value rest : List Char), ValueForm value →
            frame.source value ++ rest ≠ c :: after) ∧
          start ≠ "" ∧ start.toList <+: c :: after ∧ start.length ≤ 24 := by
  refine ⟨decodeBySearch_eq text, fun offset start failed => ?_⟩
  obtain ⟨dump, c, after, whole, visible, none, rfl, rfl⟩ := decodeFrom_grammar failed
  refine ⟨dump.source, c, after, whole, ?_, visible, ⟨dump.primitives, ?_⟩, ?_, ?_, ?_, ?_⟩
  · rw [whole, Utf8.size_append, Nat.add_sub_cancel]
  · rw [decode, String.toList_ofList]
    exact decodeFrom_source dump _
  · intro tag frame value rest form token
    have found := finds_first?_of_form frame form rest
    rw [token, none] at found
    obtain ⟨_, found⟩ := found
    cases found
  · intro empty
    have chars := congrArg String.toList empty
    rw [String.toList_ofList, snippet] at chars
    cases chars
  · rw [String.toList_ofList]
    exact snippet_prefix c after
  · rw [String.length_ofList, snippet_cons]
    exact List.length_take_le _ _

/-- A comma between two tokens, the first of them behind a space of two bytes. -/
theorem decode_grammar_fault_comma :
    decode "\u00a0BOOL\x7bval:true\x7d, U32\x7bval:3\x7d" = .error (.grammar 16 ", ") ∧
      ∃ (before : List Char) (c : Char) (after : List Char),
        "\u00a0BOOL\x7bval:true\x7d, U32\x7bval:3\x7d".toList = before ++ c :: after ∧
        Utf8.size before = 16 ∧ isBlank c = false ∧
        (∃ primitives, decode (String.ofList before) = .ok primitives) ∧
        ", ".toList <+: c :: after := by
  have failed :
      decode "\u00a0BOOL\x7bval:true\x7d, U32\x7bval:3\x7d" = .error (.grammar 16 ", ") := by
    decide +kernel
  obtain ⟨before, c, after, whole, size, visible, decoded, -, -, start, -⟩ :=
    (decode_grammar_fault _).2 16 ", " failed
  exact ⟨failed, before, c, after, whole, size, visible, decoded, start⟩

end ZkCommand.Witness
