import ZkCommand.Command.ToTree
import ZkCommand.Proofs.Leaf.Integers

/-!
# ZkCommand.Proofs.Leaf.Printed

**Every leaf is read back from its tree.** A record writes each kind of leaf in one form only, and
the reader of that kind takes the form for the same value: numerals for integers, also where a hash
in base 58 would be accepted, and known labels for levels and signs.
-/

namespace ZkCommand.Leaf

/-! ### Integers -/

/-- A word is written as its numeral. -/
theorem integer_toTree {width : Nat} (w : BitVec width) : Integer (toTree w) w.toNat :=
  ⟨_, .number _, Decimal.spells_text w.toNat⟩

theorem word_toTree {width : Nat} (w : BitVec width) : word width (toTree w) = .ok w :=
  word_eq_ok_iff.mpr (integer_toTree w)

/-! ### Field elements -/

theorem field_toTree (x : Fp) : field (toTree x) = .ok x :=
  field_eq_ok_iff.mpr (.inr ⟨_, .string _, Fp.spells_decimal x⟩)

/-- A string of digits is an integer and not a text in base 58. -/
theorem hash_toTree (version : UInt8) (x : Fp) : hash version (toTree x) = .ok x := by
  have digits : Decimal.isNumeral x.decimal.toList = true :=
    (Decimal.spells_iff.mp (Fp.spells_decimal x)).1
  have read : hash version (toTree x) = field (toTree x) := if_pos digits
  rw [read, field_toTree]

theorem actionState_toTree (s : ActionState) : actionState (toTree s) = .ok s := by
  show (field (toTree s.hash) >>= _) = _
  rw [field_toTree]
  rfl

/-! ### Keys, labels and texts -/

theorem publicKey_toTree (key : PublicKey) : publicKey (toTree key) = .ok key := by
  cases key with
  | address text => rfl
  | point x isOdd =>
      show (field (toTree x) >>= fun x => bool (toTree isOdd) >>= fun isOdd =>
        .ok (PublicKey.point x isOdd)) = _
      rw [field_toTree]
      rfl

theorem auth_toTree (level : Auth) : auth (toTree level) = .ok ⟨level, none⟩ := by
  cases level <;> rfl

theorem sign_toTree (s : Sign) : sign (toTree s) = .ok ⟨s, none⟩ := by
  cases s <;> rfl

theorem tokenSymbol_toTree (symbol : TokenSymbol) : tokenSymbol (toTree symbol) = .ok symbol :=
  dif_pos symbol.fits

end ZkCommand.Leaf
