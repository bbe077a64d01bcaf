import ZkCommand.Leaf.Read
import ZkCommand.Proofs.Fp

/-!
# ZkCommand.Proofs.Leaf.Hashes

**Hashes have two spellings in base 58.** A string that is not an integer is read as a field element
if and only if it is the text of the element's payload under the expected version, with or without a
leading one before the payload. What else a text may hold is refused by its length or by its size;
and a string of digits, like every value that is no string, is read as an integer.
-/

namespace ZkCommand.Base58

/-- A text holds one payload. -/
theorem encodeCheck_inj [Checksum] {version : UInt8} {payload payload' : List UInt8} :
    encodeCheck version payload = encodeCheck version payload' ↔ payload = payload' := by
  rw [← decodeCheck_eq_ok_iff, decodeCheck_encodeCheck, if_pos rfl, Except.ok.injEq]

end ZkCommand.Base58

namespace ZkCommand.Leaf

open Base58

/-! ### Integers and texts -/

/-- A string that is not taken for an integer: it is empty, or it has a character that is not one of
the ten digits. -/
def IsEncoded (text : String) : Prop := text = "" ∨ ∃ c ∈ text.toList, ¬ ('0' ≤ c ∧ c ≤ '9')

theorem isEncoded_iff {text : String} :
    IsEncoded text ↔ Decimal.isNumeral text.toList = false := by
  rw [Bool.eq_false_iff, ne_eq, Decimal.isNumeral_iff, not_and_or, not_not, IsEncoded,
    String.toList_eq_nil_iff]
  simp only [Decimal.isDigit_iff, not_forall, exists_prop]

theorem hash_of_isEncoded [Checksum] {text : String} (h : IsEncoded text) (version : UInt8) :
    hash version (.str text) = hashText version text := by
  rw [hash, isEncoded_iff.mp h]
  rfl

/-- Every other value is read as an integer is. -/
theorem hash_eq_field [Checksum] {t : Tree} (h : ∀ text, t = .str text → ¬ IsEncoded text)
    (version : UInt8) : hash version t = field t := by
  cases t with
  | str text =>
      have digits : Decimal.isNumeral text.toList = true := by
        rw [← Bool.not_eq_false, ← isEncoded_iff]
        exact h text rfl
      rw [hash, if_pos digits]
  | _ => rfl

/-! ### Payloads -/

/-- A payload may have a one in front, which is its version. -/
theorem hashPayload_eq_iff {payload bytes : List UInt8} (h : bytes.length = Fp.payloadSize) :
    hashPayload payload = bytes ↔ payload = bytes ∨ payload = 1 :: bytes := by
  cases payload with
  | nil => simp [hashPayload]
  | cons b rest =>
      rw [hashPayload]
      split_ifs with versioned
      · obtain ⟨rfl, length⟩ := versioned
        have longer : ¬ 1 :: rest = bytes := fun same => by
          rw [← same, List.length_cons, length] at h
          exact absurd h (by decide)
        rw [or_iff_right longer, List.cons.injEq, and_iff_right rfl]
      · refine (or_iff_left fun same => versioned ?_).symm
        obtain ⟨rfl, rfl⟩ := List.cons.inj same
        exact ⟨rfl, h⟩

/-- Bytes that are no longer by a version than a payload are left as they are. -/
theorem hashPayload_eq_self {payload : List UInt8}
    (h : ∀ bytes, payload = 1 :: bytes → bytes.length ≠ Fp.payloadSize) :
    hashPayload payload = payload := by
  cases payload with
  | nil => rfl
  | cons b rest =>
      refine if_neg fun versioned => ?_
      obtain ⟨rfl, length⟩ := versioned
      exact h rest rfl length

/-! ### Texts -/

section
variable [Checksum] {version : UInt8}

/-- A field element is read from the two texts of its payload. -/
theorem hashText_eq_ok_iff {text : String} {x : Fp} : hashText version text = .ok x ↔
    text = encodeCheck version x.payload ∨ text = encodeCheck version (1 :: x.payload) := by
  rw [hashText, Text.bind_eq_ok_iff]
  simp only [Text.mapError_eq_ok_iff, decodeCheck_eq_ok_iff, Fp.ofPayload_eq_ok_iff,
    hashPayload_eq_iff (Fp.length_payload x)]
  constructor
  · intro h
    obtain ⟨_, rfl, rfl | rfl⟩ := h
    · exact .inl rfl
    · exact .inr rfl
  · intro h
    obtain rfl | rfl := h
    · exact ⟨_, rfl, .inl rfl⟩
    · exact ⟨_, rfl, .inr rfl⟩

/-- The payload of a text decides on what is read from it. -/
theorem hashText_encodeCheck (payload : List UInt8) :
    hashText version (encodeCheck version payload)
      = (Fp.ofPayload (hashPayload payload)).mapError .field := by
  rw [hashText, decodeCheck_encodeCheck, if_pos rfl]
  rfl

theorem hashText_of_length {payload : List UInt8} (length : payload.length ≠ Fp.payloadSize)
    (h : ∀ bytes, payload = 1 :: bytes → bytes.length ≠ Fp.payloadSize) :
    hashText version (encodeCheck version payload)
      = .error (.field (.badPayloadLength payload.length)) := by
  rw [hashText_encodeCheck, hashPayload_eq_self h, Fp.ofPayload, if_neg length]
  rfl

theorem hashText_of_large {payload bytes : List UInt8} (length : bytes.length = Fp.payloadSize)
    (large : Fp.modulus ≤ Fp.littleEndian bytes) (h : payload = bytes ∨ payload = 1 :: bytes) :
    hashText version (encodeCheck version payload)
      = .error (.field (.overflow (Fp.littleEndian bytes))) := by
  rw [hashText_encodeCheck, (hashPayload_eq_iff length).mpr h, Fp.ofPayload_eq_ofNat length,
    Fp.ofNat_eq_error_iff.mpr ⟨large, rfl⟩]
  rfl

end

/-! ### Exactness -/

/-- **A hash is read from exactly two texts in base 58**, or as an integer. Of the strings that are
not integers, those of the payload of a field element are read as this element, and no others are,
whatever the checksum; the two texts differ. All other values are read as they are where only an
integer is expected. A text whose payload has another length, or is a longer one that does not start
with a one, is refused by its length, and one whose payload is not below the modulus by its number.
-/
theorem hash_exact [Checksum] (version : UInt8) :
    (∀ (text : String) (x : Fp), IsEncoded text → (hash version (.str text) = .ok x ↔
      text = encodeCheck version x.payload ∨ text = encodeCheck version (1 :: x.payload))) ∧
    (∀ x : Fp, encodeCheck version x.payload ≠ encodeCheck version (1 :: x.payload)) ∧
    (∀ t : Tree, (∀ text, t = .str text → ¬ IsEncoded text) → hash version t = field t) ∧
    ∀ payload : List UInt8, IsEncoded (encodeCheck version payload) →
      (payload.length ≠ 32 → (∀ bytes, payload = 1 :: bytes → bytes.length ≠ 32) →
        hash version (.str (encodeCheck version payload))
          = .error (.field (.badPayloadLength payload.length))) ∧
      ∀ bytes, bytes.length = 32 → Fp.modulus ≤ Fp.littleEndian bytes →
        payload = bytes ∨ payload = 1 :: bytes →
        hash version (.str (encodeCheck version payload))
          = .error (.field (.overflow (Fp.littleEndian bytes))) := by
  refine ⟨fun text x h => ?_, fun x same => ?_, fun t h => hash_eq_field h version,
    fun payload h => ?_⟩
  · rw [hash_of_isEncoded h, hashText_eq_ok_iff]
  · exact List.cons_ne_self _ _ (encodeCheck_inj.mp same).symm
  · rw [hash_of_isEncoded h]
    exact ⟨hashText_of_length, fun bytes => hashText_of_large⟩

/-- The token of number one is read from its text, and neither the empty payload nor the greatest
one is a token. -/
theorem hash_exact_tokenOne :
    IsEncoded "wSHV2S4qX9jFsLjQo8r1BsMLH2ZRKsZx6EJd1sbozGPieEC4Jf" ∧
    hash tokenIdVersion (.str "wSHV2S4qX9jFsLjQo8r1BsMLH2ZRKsZx6EJd1sbozGPieEC4Jf")
      = .ok (.ofWord 1) ∧
    hash tokenIdVersion (.str "0001") = field (.str "0001") ∧
    hash tokenIdVersion (.str (encodeCheck tokenIdVersion []))
      = .error (.field (.badPayloadLength 0)) ∧
    hash tokenIdVersion (.str (encodeCheck tokenIdVersion (1 :: List.replicate 32 255)))
      = .error (.field (.overflow (2 ^ 256 - 1))) := by
  have text : IsEncoded "wSHV2S4qX9jFsLjQo8r1BsMLH2ZRKsZx6EJd1sbozGPieEC4Jf" :=
    isEncoded_iff.mpr (by decide)
  have one : "wSHV2S4qX9jFsLjQo8r1BsMLH2ZRKsZx6EJd1sbozGPieEC4Jf"
      = encodeCheck tokenIdVersion (Fp.ofWord 1).payload := by decide +kernel
  have empty : IsEncoded (encodeCheck tokenIdVersion []) :=
    isEncoded_iff.mpr (by decide +kernel)
  have greatest : IsEncoded (encodeCheck tokenIdVersion (1 :: List.replicate 32 255)) :=
    isEncoded_iff.mpr (by decide +kernel)
  have number : Fp.littleEndian (List.replicate 32 255) = 2 ^ 256 - 1 := by decide +kernel
  have digits : ∀ text, Tree.str "0001" = .str text → ¬ IsEncoded text := by
    intro text same
    rw [← Tree.str.inj same, isEncoded_iff]
    decide
  obtain ⟨texts, -, others, refused⟩ := hash_exact tokenIdVersion
  refine ⟨text, (texts _ _ text).mpr (.inl one), others _ digits, ?_, ?_⟩
  · exact (refused _ empty).1 (by decide) (by simp)
  · rw [← number]
    exact (refused _ greatest).2 _ (by decide) (by decide +kernel) (.inr rfl)

end ZkCommand.Leaf
