import ZkCommand.Command.ToTree
import ZkCommand.Proofs.Json.Printed

/-!
# ZkCommand.Proofs.Command.Plain

**Records are printed faithfully.** The tree of every value of a record has numerals for numbers,
distinct keys, none of them the one of a number, and no more levels than its type says (`PlainAt`),
far fewer than a reader allows. So the text of a record, in either layout, is read back as its tree.
-/

namespace ZkCommand

/-- Every value of a type has a plain tree with so many levels. -/
class PlainAt (levels : Nat) (α : Type) [ToTree α] : Prop where
  plain : ∀ a : α, (toTree a).Plain levels

/-- A plain tree is one with more levels. -/
theorem Tree.Plain.mono {m n : Nat} {t : Tree} (h : t.Plain m) (le : m ≤ n) : t.Plain n := by
  induction h generalizing n with
  | null => exact .null
  | bool b => exact .bool b
  | numeral k => exact .numeral k
  | str text => exact .str text
  | list each ih =>
      cases n with
      | zero => cases le
      | succ k => exact .list fun t ht => ih t ht (Nat.le_of_succ_le_succ le)
  | map distinct each ih =>
      cases n with
      | zero => cases le
      | succ k => exact .map distinct fun entry he => ih entry he (Nat.le_of_succ_le_succ le)

variable {n : Nat} {α : Type} [ToTree α]

/-! ### Leaves -/

instance : PlainAt n Fp := ⟨fun x => .str x.decimal⟩
instance : PlainAt n Bool := ⟨.bool⟩
instance : PlainAt n String := ⟨.str⟩
instance {width : Nat} : PlainAt n (BitVec width) := ⟨fun w => .numeral w.toNat⟩
instance : PlainAt n Network := ⟨fun network => .str network.name⟩
instance : PlainAt n ActionState := ⟨fun s => .str s.hash.decimal⟩
instance : PlainAt n Auth := ⟨fun a => .str a.label⟩
instance : PlainAt n Sign := ⟨fun s => .str s.label⟩
instance : PlainAt n TokenSymbol := ⟨fun s => .str s.text⟩
instance : PlainAt n Uri := ⟨fun u => .str u.text⟩

/-! ### Containers -/

instance [PlainAt n α] : PlainAt n (Option α) where
  plain
    | none => .null
    | some a => PlainAt.plain a

instance [PlainAt n α] : PlainAt (n + 1) (List α) where
  plain as := by
    refine .list fun t ht => ?_
    obtain ⟨a, -, rfl⟩ := List.mem_map.mp ht
    exact PlainAt.plain a

instance {size : Nat} [PlainAt n α] : PlainAt (n + 1) (Vector α size) :=
  ⟨fun as => PlainAt.plain as.toList⟩

instance [PlainAt n α] : PlainAt (n + 1) (Optional α) where
  plain
    | .tagged value => (PlainAt.plain value : Tree.Plain n _).mono (Nat.le_succ n)
    | .flagged present payload => .map (by simp [Json.numberKey]) (by simp [PlainAt.plain])

/-! ### Records -/

instance : PlainAt (n + 1) PublicKey where
  plain
    | .address text => .str text
    | .point x isOdd => .map (by simp [Json.numberKey]) (by simp [PlainAt.plain])

instance {width : Nat} : PlainAt (n + 1) (Range width) :=
  ⟨fun _ => .map (by simp [Json.numberKey]) (by simp [PlainAt.plain])⟩

instance : PlainAt (n + 1) BalanceChange :=
  ⟨fun _ => .map (by simp [Json.numberKey]) (by simp [PlainAt.plain])⟩

instance : PlainAt (n + 1) VerificationKey :=
  ⟨fun _ => .map (by simp [Json.numberKey]) (by simp [PlainAt.plain])⟩

instance : PlainAt (n + 1) SetVerificationKey :=
  ⟨fun _ => .map (by simp [Json.numberKey]) (by simp [PlainAt.plain])⟩

instance : PlainAt (n + 2) Permissions :=
  ⟨fun _ => .map (by simp [Json.numberKey]) (by simp [PlainAt.plain])⟩

instance : PlainAt (n + 1) Timing :=
  ⟨fun _ => .map (by simp [Json.numberKey]) (by simp [PlainAt.plain])⟩

instance : PlainAt (n + 4) Update :=
  ⟨fun _ => .map (by simp [Json.numberKey]) (by simp [PlainAt.plain])⟩

instance : PlainAt (n + 3) EpochLedger :=
  ⟨fun _ => .map (by simp [Json.numberKey]) (by simp [PlainAt.plain])⟩

instance : PlainAt (n + 4) EpochData :=
  ⟨fun _ => .map (by simp [Json.numberKey]) (by simp [PlainAt.plain])⟩

instance : PlainAt (n + 5) NetworkPreconditions :=
  ⟨fun _ => .map (by simp [Json.numberKey]) (by simp [PlainAt.plain])⟩

instance : PlainAt (n + 3) AccountPreconditions :=
  ⟨fun _ => .map (by simp [Json.numberKey]) (by simp [PlainAt.plain])⟩

instance : PlainAt (n + 6) Preconditions :=
  ⟨fun _ => .map (by simp [Json.numberKey]) (by simp [PlainAt.plain])⟩

instance : PlainAt (n + 2) FeePayerBody :=
  ⟨fun _ => .map (by simp [Json.numberKey]) (by simp [PlainAt.plain])⟩

instance : PlainAt (n + 3) FeePayer :=
  ⟨fun _ => .map (by simp [Json.numberKey]) (by simp [PlainAt.plain])⟩

instance : PlainAt (n + 1) MayUseToken :=
  ⟨fun _ => .map (by simp [Json.numberKey]) (by simp [PlainAt.plain])⟩

instance : PlainAt (n + 1) AuthorizationKind :=
  ⟨fun _ => .map (by simp [Json.numberKey]) (by simp [PlainAt.plain])⟩

instance : PlainAt (n + 1) Authorization :=
  ⟨fun _ => .map (by simp [Json.numberKey]) (by simp [PlainAt.plain])⟩

instance : PlainAt (n + 7) AccountUpdateBody :=
  ⟨fun _ => .map (by simp [Json.numberKey]) (by simp [PlainAt.plain])⟩

instance : PlainAt (n + 8) AccountUpdate :=
  ⟨fun _ => .map (by simp [Json.numberKey]) (by simp [PlainAt.plain])⟩

instance : PlainAt (n + 10) Command :=
  ⟨fun _ => .map (by simp [Json.numberKey]) (by simp [PlainAt.plain])⟩

instance : PlainAt (n + 1) ExpectedHashes :=
  ⟨fun _ => .map (by simp [Json.numberKey]) (by simp [PlainAt.plain])⟩

instance : PlainAt (n + 11) Record :=
  ⟨fun _ => .map (by simp [Json.numberKey]) (by simp [PlainAt.plain])⟩

/-- **The text of a record is read back as its tree**, whether it is compact or indented. -/
theorem readTree_of_printed (record : Record) {text : String}
    (printed : text = (toTree record).compact ∨ text = (toTree record).pretty) :
    Relaxed.readTree text = .ok (toTree record) := by
  have plain : (toTree record).Plain 127 := PlainAt.plain record
  rcases printed with rfl | rfl
  · exact readTree_compact plain
  · exact readTree_pretty plain

end ZkCommand
