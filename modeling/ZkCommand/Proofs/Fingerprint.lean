import ZkCommand.Proofs.Command.Faithful

/-!
# ZkCommand.Proofs.Fingerprint

**Texts and fingerprints tell records.** Both layouts of a record's text are read back as its tree,
and the tree tells the record, so no two records have the same text. From the text to the
fingerprint, nothing is lost but what the hash function loses: bytes tell a text and digits tell
bytes.
-/

namespace ZkCommand

/-! ### Bytes and digits -/

namespace Text

/-- The bytes of a text tell the text. -/
theorem Utf8.bytes_inj {s t : List Char} (h : bytes s = bytes t) : s = t := by
  have encoded : s.utf8Encode = t.utf8Encode := congrArg List.toByteArray h
  rw [← String.toByteArray_ofList, ← String.toByteArray_ofList, String.toByteArray_inj] at encoded
  exact String.ofList_inj.mp encoded

theorem Hex.ofByte_inj {a b : UInt8} (h : ofByte a = ofByte b) : a = b := by
  have told {m n : Nat} (hm : m < 16) (hn : n < 16) (same : digitChar m = digitChar n) : m = n := by
    have value := digitValue?_digitChar hm
    rw [same, digitValue?_digitChar hn] at value
    exact (Option.some.inj value).symm
  obtain ⟨high, low⟩ : digitChar (a.toNat / 16) = digitChar (b.toNat / 16) ∧
      digitChar (a.toNat % 16) = digitChar (b.toNat % 16) := by
    simpa [ofByte] using h
  have := a.toNat_lt
  have := b.toNat_lt
  have quotient := told (by omega) (by omega) high
  have remainder := told (by omega) (by omega) low
  exact UInt8.toNat_inj.mp (by omega)

/-- The digits of bytes tell the bytes. -/
theorem Hex.ofBytes_inj {as bs : List UInt8} (h : ofBytes as = ofBytes bs) : as = bs := by
  induction as generalizing bs with
  | nil =>
      cases bs with
      | nil => rfl
      | cons b bs => cases h
  | cons a as ih =>
      cases bs with
      | nil => cases h
      | cons b bs =>
          rw [ofBytes, ofBytes, List.flatMap_cons, List.flatMap_cons] at h
          obtain ⟨first, rest⟩ := List.append_inj h rfl
          rw [ofByte_inj first, ih rest]

end Text

/-! ### Records -/

namespace Record

/-- The bytes of which a fingerprint is the digest: a tag and the compact text of a record. -/
def fingerprinted (r : Record) : List UInt8 :=
  Text.Utf8.bytes (fingerprintTag.toList ++ (toTree r).chars)

theorem fingerprint_eq_iff {r r' : Record} :
    r.fingerprint = r'.fingerprint ↔
      Hash.Sha256.digest r.fingerprinted = Hash.Sha256.digest r'.fingerprinted := by
  constructor
  · intro h
    exact Text.Hex.ofBytes_inj (String.ofList_inj.mp h)
  · intro h
    exact congrArg (fun digest => String.ofList (Text.Hex.ofBytes digest)) h

/-- Records with texts that are read alike are the same. -/
theorem eq_of_printed {r r' : Record} {text : String}
    (h : text = (toTree r).compact ∨ text = (toTree r).pretty)
    (h' : text = (toTree r').compact ∨ text = (toTree r').pretty) : r = r' := by
  have read := readTree_of_printed r h
  rw [readTree_of_printed r' h'] at read
  exact toTree_inj.mp (Except.ok.inj read).symm

theorem compact_inj {r r' : Record} : (toTree r).compact = (toTree r').compact ↔ r = r' :=
  ⟨fun h => eq_of_printed (Or.inl rfl) (Or.inl h), fun h => by rw [h]⟩

theorem pretty_inj {r r' : Record} : (toTree r).pretty = (toTree r').pretty ↔ r = r' :=
  ⟨fun h => eq_of_printed (Or.inr rfl) (Or.inr h), fun h => by rw [h]⟩

theorem fingerprinted_inj {r r' : Record} : r.fingerprinted = r'.fingerprinted ↔ r = r' := by
  constructor
  · intro h
    have chars := List.append_cancel_left (Text.Utf8.bytes_inj h)
    exact compact_inj.mp (congrArg String.ofList chars)
  · intro h
    rw [h]

/-- **The text of a record loses nothing.** Two records have the same text in one of the layouts
only if they are the same, and the same fingerprint only if, besides, the hash function takes two
different texts to one digest. Both texts of a record are read back, and as the same tree. -/
theorem printed_exact (r r' : Record) :
    ((toTree r).compact = (toTree r').compact ↔ r = r') ∧
      ((toTree r).pretty = (toTree r').pretty ↔ r = r') ∧
      (r.fingerprint = r'.fingerprint ↔ r = r' ∨
        (r.fingerprinted ≠ r'.fingerprinted ∧
          Hash.Sha256.digest r.fingerprinted = Hash.Sha256.digest r'.fingerprinted)) ∧
      ∃ t, Relaxed.readTree (toTree r).compact = .ok t ∧
        Relaxed.readTree (toTree r).pretty = .ok t := by
  refine ⟨compact_inj, pretty_inj, ?_, _, readTree_of_printed r (Or.inl rfl),
    readTree_of_printed r (Or.inr rfl)⟩
  rw [fingerprint_eq_iff, ← fingerprinted_inj]
  constructor
  · intro same
    by_cases h : r.fingerprinted = r'.fingerprinted
    · exact Or.inl h
    · exact Or.inr ⟨h, same⟩
  · intro h
    obtain same | ⟨-, same⟩ := h
    · rw [same]
    · exact same

end Record

end ZkCommand
