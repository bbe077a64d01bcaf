import ZkCommand.Fp
import ZkCommand.Proofs.Base58.Exact
import ZkCommand.Proofs.Decimal

/-!
# ZkCommand.Proofs.Fp

**Field elements are read back from both of their encodings.** The bytes of a number below the
modulus fit a payload, so that each element has one payload, and no other thirty-two bytes are read
as it. Its texts are its numeral with zeros in front. Both readers refuse what denotes no element,
and numbers that are not below the modulus are never reduced.
-/

namespace ZkCommand.Fp

/-! ### Elements and numbers -/

theorem val_inj {x y : Fp} : x.val = y.val ↔ x = y := by
  cases x
  cases y
  rw [mk.injEq]

theorem ofNat_eq_ok_iff {n : Nat} {x : Fp} : ofNat n = .ok x ↔ x.val = n := by
  rw [ofNat]
  split_ifs with below
  · rw [Except.ok.injEq, ← val_inj, eq_comm]
  · refine iff_of_false (fun h => by cases h) fun same => below ?_
    rw [← same]
    exact x.val_lt

theorem ofNat_eq_error_iff {n : Nat} {fault : Fault} :
    ofNat n = .error fault ↔ modulus ≤ n ∧ fault = .overflow n := by
  rw [ofNat]
  split_ifs with below
  · exact iff_of_false (fun h => by cases h) fun h => Nat.not_lt_of_le h.1 below
  · rw [Except.error.injEq, eq_comm, and_iff_right (Nat.le_of_not_lt below)]

/-! ### Decimal text -/

theorem toList_decimal (x : Fp) : x.decimal.toList = Decimal.write x.val := Decimal.toList_text _

theorem spells_decimal (x : Fp) : Decimal.Spells x.decimal.toList x.val := Decimal.spells_text _

/-- A text is read as the element whose number it spells. -/
theorem ofDecimal_eq_ok_iff {text : String} {x : Fp} :
    ofDecimal text = .ok x ↔ Decimal.Spells text.toList x.val := by
  rw [Decimal.spells_iff, ofDecimal]
  split_ifs with numeral
  · rw [ofNat_eq_ok_iff, and_iff_right numeral, eq_comm]
  · exact iff_of_false (fun h => by cases h) fun h => numeral h.1

/-- A text that spells a number fails only by a number that is too large. -/
theorem ofDecimal_eq_ofNat {text : String} {n : Nat} (h : Decimal.Spells text.toList n) :
    ofDecimal text = ofNat n := by
  obtain ⟨numeral, rfl⟩ := Decimal.spells_iff.mp h
  rw [ofDecimal, if_pos numeral]

theorem spells_iff_eq_append {text : String} {x : Fp} : Decimal.Spells text.toList x.val ↔
    ∃ zeros, text = String.ofList (List.replicate zeros '0') ++ x.decimal := by
  rw [Decimal.spells_iff_exists_zeros]
  refine exists_congr fun zeros => ?_
  rw [← String.toList_inj, String.toList_append, String.toList_ofList, toList_decimal]

/-! ### Payload -/

/-- The bytes of an element fit a payload. -/
theorem length_digits_le (x : Fp) : (Radix.digits 256 x.val).length ≤ payloadSize := by
  rw [Radix.length_digits_le_iff (by decide)]
  exact Nat.lt_trans x.val_lt (by decide)

theorem length_payload (x : Fp) : x.payload.length = payloadSize := by
  rw [payload, List.length_append, List.length_replicate, List.length_map]
  exact Nat.add_sub_cancel' (length_digits_le x)

/-- The number that bytes stand for, the least significant byte first. -/
def littleEndian (bytes : List UInt8) : Nat := Radix.value 256 (bytes.map UInt8.toNat)

theorem littleEndian_payload (x : Fp) : littleEndian x.payload = x.val := by
  have bound : ∀ d ∈ Radix.digits 256 x.val, d < 256 :=
    fun _ => Radix.lt_of_mem_digits (by decide)
  have digits := Base58.map_toNat_ofNat bound
  rw [littleEndian, payload, List.map_append, digits, List.map_replicate]
  exact (Radix.value_append_zeros _ _ _).trans (Radix.value_digits (by decide) _)

/-- Byte lists of one length differ if their numbers do. -/
theorem littleEndian_inj {bytes bytes' : List UInt8} (length : bytes.length = bytes'.length)
    (h : littleEndian bytes = littleEndian bytes') : bytes = bytes' := by
  refine List.map_injective_iff.mpr (fun a b => UInt8.toNat_inj.mp) ?_
  refine Radix.value_inj (by decide) ?_ (fun _ => Base58.lt_of_mem_toNat)
    (fun _ => Base58.lt_of_mem_toNat) h
  rw [List.length_map, List.length_map, length]

theorem ofPayload_eq_ofNat {bytes : List UInt8} (h : bytes.length = payloadSize) :
    ofPayload bytes = ofNat (littleEndian bytes) := if_pos h

/-- An element is read from its payload, and from no other bytes. -/
theorem ofPayload_eq_ok_iff {bytes : List UInt8} {x : Fp} :
    ofPayload bytes = .ok x ↔ bytes = x.payload := by
  by_cases length : bytes.length = payloadSize
  · rw [ofPayload_eq_ofNat length, ofNat_eq_ok_iff, ← littleEndian_payload, eq_comm]
    constructor
    · exact littleEndian_inj (length.trans (length_payload x).symm)
    · exact congrArg littleEndian
  · rw [ofPayload, if_neg length]
    refine iff_of_false (fun h => by cases h) fun same => length ?_
    rw [same, length_payload]

/-! ### Order -/

theorem compare_eq (x y : Fp) : compare x y = compare x.val y.val := rfl

/-! ### Both encodings -/

/-- **Field elements are read back from both of their encodings.** Every element is below the
modulus and its bytes fit a payload of thirty-two; it has the number that it is made from. An
element is read back from its numeral, which spells its number, and from its payload, which has its
number in base 256. It is read from no other bytes, and of other texts only from its numeral with
zeros in front. Elements are equal and ordered as their numbers are. -/
theorem encodings_exact :
    (∀ x : Fp, x.val < modulus ∧ (Radix.digits 256 x.val).length ≤ 32 ∧ x.payload.length = 32) ∧
    (zero.val = 0 ∧ (default : Fp).val = 0 ∧ (∀ w, (ofWord w).val = w.toNat) ∧
      (∀ n x, ofNat n = .ok x ↔ x.val = n) ∧
      ∀ n fault, ofNat n = .error fault ↔ modulus ≤ n ∧ fault = .overflow n) ∧
    (∀ x : Fp, littleEndian x.payload = x.val ∧ ofPayload x.payload = .ok x ∧
      Decimal.Spells x.decimal.toList x.val ∧ ofDecimal x.decimal = .ok x) ∧
    (∀ bytes x, ofPayload bytes = .ok x ↔ bytes = x.payload) ∧
    (∀ text x, ofDecimal text = .ok x ↔
      ∃ zeros, text = String.ofList (List.replicate zeros '0') ++ x.decimal) ∧
    ∀ x y : Fp, (x = y ↔ x.val = y.val) ∧ (compare x y = .lt ↔ x.val < y.val) ∧
      (compare x y = .eq ↔ x.val = y.val) ∧ (compare x y = .gt ↔ y.val < x.val) := by
  refine ⟨fun x => ⟨x.val_lt, length_digits_le x, length_payload x⟩, ?_, fun x => ?_,
    fun _ _ => ofPayload_eq_ok_iff, fun _ _ => ofDecimal_eq_ok_iff.trans spells_iff_eq_append,
    fun x y => ?_⟩
  · exact ⟨rfl, rfl, fun _ => rfl, fun _ _ => ofNat_eq_ok_iff, fun _ _ => ofNat_eq_error_iff⟩
  · exact ⟨littleEndian_payload x, ofPayload_eq_ok_iff.mpr rfl, spells_decimal x,
      ofDecimal_eq_ok_iff.mpr (spells_decimal x)⟩
  · rw [compare_eq]
    exact ⟨val_inj.symm, Nat.compare_eq_lt, Nat.compare_eq_eq, Nat.compare_eq_gt⟩

end ZkCommand.Fp
