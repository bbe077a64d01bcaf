import Mathlib.Data.List.TakeWhile
import ZkCommand.Command.Memo
import ZkCommand.Proofs.Radix

/-!
# ZkCommand.Proofs.Base58.Exact

**Reading base 58 is the inverse of writing it.** A byte list and its text are one numeral in two
bases, so each text has one byte list and each byte list one text (`decode?_eq_some_iff`). With a
version and a checksum around the payload nothing changes: of all texts only the one that is written
for a payload is read as that payload, and a text of one version is none of another. The checksum
enters only by its length.
-/

namespace ZkCommand.Base58

open Radix

/-! ### Digits and their characters -/

theorem digitValue?_eq_some_iff {c : Char} {d : Nat} :
    digitValue? c = some d ↔ d < 58 ∧ digitChar d = c := by
  constructor
  · intro h
    obtain ⟨bound, char, -⟩ := List.idxOf?_eq_some_iff.mp h
    refine ⟨bound, ?_⟩
    rw [digitChar, List.getD_eq_getElem?_getD, List.getElem?_eq_getElem bound]
    exact char
  · intro h
    obtain ⟨bound, rfl⟩ := h
    exact digitValue?_digitChar bound

theorem mapM_digitValue?_eq_some_iff {s : List Char} {ds : List Nat} :
    s.mapM digitValue? = some ds ↔ (∀ d ∈ ds, d < 58) ∧ ds.map digitChar = s := by
  induction s generalizing ds with
  | nil =>
      rw [List.mapM_nil, List.map_eq_nil_iff]
      constructor
      · intro h
        obtain rfl : [] = ds := Option.some.inj h
        exact ⟨fun d hd => absurd hd List.not_mem_nil, rfl⟩
      · intro h
        rw [h.2]
        rfl
  | cons c rest ih =>
      rw [List.mapM_cons]
      constructor
      · intro h
        obtain ⟨d, first, h⟩ := Option.bind_eq_some_iff.mp h
        obtain ⟨others, tail, h⟩ := Option.bind_eq_some_iff.mp h
        obtain rfl : d :: others = ds := Option.some.inj h
        obtain ⟨bound, rfl⟩ := digitValue?_eq_some_iff.mp first
        obtain ⟨bounds, rfl⟩ := ih.mp tail
        exact ⟨List.forall_mem_cons.mpr ⟨bound, bounds⟩, rfl⟩
      · intro h
        obtain ⟨bounds, chars⟩ := h
        cases ds with
        | nil => cases chars
        | cons d others =>
            obtain ⟨bound, bounds⟩ := List.forall_mem_cons.mp bounds
            obtain ⟨rfl, others⟩ := List.cons.inj chars
            rw [digitValue?_digitChar bound, ih.mpr ⟨bounds, others⟩]
            rfl

/-! ### Bytes as a numeral -/

/-- Bytes are digits in base 256. -/
theorem lt_of_mem_toNat {bytes : List UInt8} {d : Nat} (h : d ∈ bytes.map UInt8.toNat) :
    d < 256 := by
  obtain ⟨b, -, rfl⟩ := List.mem_map.mp h
  exact b.toNat_lt

theorem map_ofNat_toNat (bytes : List UInt8) :
    (bytes.map UInt8.toNat).map UInt8.ofNat = bytes := by
  rw [List.map_map]
  exact (List.map_congr_left fun b _ => UInt8.ofNat_toNat).trans (List.map_id _)

theorem map_toNat_ofNat {ds : List Nat} (bound : ∀ d ∈ ds, d < 256) :
    (ds.map UInt8.ofNat).map UInt8.toNat = ds := by
  rw [List.map_map]
  exact (List.map_congr_left fun d hd => UInt8.toNat_ofNat_of_lt (bound d hd)).trans (List.map_id _)

/-- The text of a byte list is its numeral in base 58. -/
theorem encode_eq (bytes : List UInt8) :
    encode bytes = (respell 256 58 (bytes.map UInt8.toNat)).map digitChar := by
  have zeros : leadingZeros (bytes.map UInt8.toNat) = (bytes.takeWhile (· == 0)).length := by
    have test : ((fun d : Nat => d == 0) ∘ UInt8.toNat) = fun b : UInt8 => b == 0 := by
      funext b
      rw [Bool.eq_iff_iff, Function.comp_apply, beq_iff_eq, beq_iff_eq, ← UInt8.toNat_inj]
      rfl
    rw [leadingZeros, List.takeWhile_map, List.length_map, test]
  have reversed : (bytes.map UInt8.toNat).reverse = bytes.reverse.map UInt8.toNat :=
    List.map_reverse.symm
  rw [respell, List.map_append, List.map_replicate, List.map_reverse, zeros, reversed, encode]
  rfl

/-- The bytes of a text are its numeral in base 256. -/
theorem decode?_eq (s : List Char) :
    decode? s = (s.mapM digitValue?).map fun ds => (respell 58 256 ds).map UInt8.ofNat := by
  rw [decode?]
  cases s.mapM digitValue? with
  | none => rfl
  | some ds =>
      rw [Option.map_some, respell, List.map_append, List.map_replicate, List.map_reverse]
      rfl

/-- **Base 58 is read exactly.** A text is read as a byte list if and only if it is the text of that
byte list. -/
theorem decode?_eq_some_iff {s : List Char} {bytes : List UInt8} :
    decode? s = some bytes ↔ s = encode bytes := by
  rw [decode?_eq, encode_eq, Option.map_eq_some_iff]
  constructor
  · intro h
    obtain ⟨ds, read, rfl⟩ := h
    obtain ⟨bound, rfl⟩ := mapM_digitValue?_eq_some_iff.mp read
    rw [map_toNat_ofNat fun d => lt_of_mem_respell (by decide),
      respell_respell (by decide) (by decide) bound]
  · intro h
    subst h
    refine ⟨respell 256 58 (bytes.map UInt8.toNat), ?_, ?_⟩
    · exact mapM_digitValue?_eq_some_iff.mpr ⟨fun d => lt_of_mem_respell (by decide), rfl⟩
    · rw [respell_respell (by decide) (by decide) fun d => lt_of_mem_toNat, map_ofNat_toNat]

/-! ### Version and checksum -/

section
variable [Checksum]

/-- A version, a payload and their checksum. -/
def guarded (version : UInt8) (payload : List UInt8) : List UInt8 :=
  version :: (payload ++ checksum (version :: payload))

theorem encodeCheck_eq (version : UInt8) (payload : List UInt8) :
    encodeCheck version payload = String.ofList (encode (guarded version payload)) := rfl

theorem decode?_encodeCheck (version : UInt8) (payload : List UInt8) :
    decode? (encodeCheck version payload).toList = some (guarded version payload) := by
  rw [encodeCheck_eq, String.toList_ofList, decode?_eq_some_iff]

/-- A text that is read holds its version, the payload and their checksum. -/
theorem decode?_of_decodeCheck {version : UInt8} {text : String} {payload : List UInt8}
    (h : decodeCheck version text = .ok payload) :
    decode? text.toList = some (guarded version payload) := by
  rw [decodeCheck] at h
  split at h
  · cases h
  · cases h
  · rename_i found rest bytes
    dsimp only at h
    split_ifs at h with short other sum
    obtain rfl : rest.take (rest.length - 4) = payload := Except.ok.inj h
    rw [not_not] at other
    rw [bytes, guarded, ← other, sum, List.take_append_drop]

/-- What is written for one version is read under this version, and under every other one the
versions are what it fails by. -/
theorem decodeCheck_encodeCheck (expected version : UInt8) (payload : List UInt8) :
    decodeCheck expected (encodeCheck version payload)
      = if version = expected then .ok payload else .error (.versionMismatch expected version) := by
  have length : (payload ++ checksum (version :: payload)).length = payload.length + 4 := by
    rw [List.length_append, length_checksum]
  have long : ¬ (payload ++ checksum (version :: payload)).length < 4 := by omega
  have before : (payload ++ checksum (version :: payload)).length - 4 = payload.length := by omega
  rw [decodeCheck, decode?_encodeCheck]
  dsimp only [guarded]
  rw [if_neg long, before, List.take_left, List.drop_left, if_pos rfl]
  by_cases same : version = expected
  · rw [if_pos same, if_neg (not_not.mpr same)]
  · rw [if_neg same, if_pos same]

theorem decodeCheck_eq_ok_iff {version : UInt8} {text : String} {payload : List UInt8} :
    decodeCheck version text = .ok payload ↔ text = encodeCheck version payload := by
  constructor
  · intro h
    have chars := decode?_eq_some_iff.mp (decode?_of_decodeCheck h)
    rw [encodeCheck_eq, ← chars, String.ofList_toList]
  · intro h
    rw [h, decodeCheck_encodeCheck, if_pos rfl]

/-- A memo is the text of thirty-four bytes under the version of memos. -/
theorem decode_memo_eq_ok_iff {text : String} {bytes : List UInt8} :
    Memo.decode text = .ok bytes ↔ bytes.length = 34 ∧ text = encodeCheck memoVersion bytes := by
  rw [← decodeCheck_eq_ok_iff, Memo.decode]
  cases h : decodeCheck memoVersion text with
  | error fault => simp
  | ok payload =>
      dsimp only
      split_ifs with size
      · rw [Except.ok.injEq, Except.ok.injEq, iff_and_self]
        intro same
        rwa [← same]
      · refine iff_of_false (fun h => by cases h) fun h => size ?_
        rw [Except.ok.inj h.2]
        exact h.1

end

/-- **Reading is the exact inverse of writing**, whatever the checksum. Under every version each
payload has one text, and no other text is read as it; a text is refused under every version but its
own; and a memo is what is written for thirty-four bytes. -/
theorem decodeCheck_exact [Checksum] :
    (∀ (version : UInt8) (text : String) (payload : List UInt8),
      decodeCheck version text = .ok payload ↔ text = encodeCheck version payload) ∧
    (∀ (version : UInt8) (payload : List UInt8), ∃! text, decodeCheck version text = .ok payload) ∧
    (∀ (expected version : UInt8) (payload : List UInt8),
      decodeCheck expected (encodeCheck version payload)
        = if version = expected then .ok payload
          else .error (.versionMismatch expected version)) ∧
    ∀ (text : String) (bytes : List UInt8),
      Memo.decode text = .ok bytes ↔ bytes.length = 34 ∧ text = encodeCheck memoVersion bytes := by
  refine ⟨fun _ _ _ => decodeCheck_eq_ok_iff, fun version payload => ?_, decodeCheck_encodeCheck,
    fun _ _ => decode_memo_eq_ok_iff⟩
  refine ⟨encodeCheck version payload, decodeCheck_eq_ok_iff.mpr rfl, fun text h => ?_⟩
  exact decodeCheck_eq_ok_iff.mp h

end ZkCommand.Base58
