import ZkCommand.Fingerprint
import ZkCommand.Proofs.Command.Plain
import ZkCommand.Proofs.Reading.Reread

/-!
# ZkCommand.Proofs.Command.Faithful

**The tree of a record tells the record.** No two values of a type have the same tree (`Faithful`),
where an optional value is written as null, as the value itself, or beside its flag: no value that
may be absent has a tree that could be taken for null or for a flag with a payload. So the text of a
record tells the record as well, in either layout.
-/

namespace ZkCommand

/-- The tree of a value tells the value. -/
class Faithful (α : Type) [ToTree α] : Prop where
  told : ∀ a b : α, toTree a = toTree b → a = b

/-- Values whose trees have no flag. -/
class Unflagged (α : Type) [ToTree α] : Prop where
  unflagged : ∀ a : α, (toTree a).get? "isSome" = none

section
variable {α : Type} [ToTree α]

@[simp] theorem toTree_inj [Faithful α] {a b : α} : toTree a = toTree b ↔ a = b :=
  ⟨Faithful.told a b, congrArg toTree⟩

/-- A value that is read back from its tree is told by it. -/
theorem Faithful.of_read {read : Leaf.Reader α} (back : ∀ a, read (toTree a) = .ok a) :
    Faithful α where
  told a b h := Except.ok.inj ((back a).symm.trans ((congrArg read h).trans (back b)))

/-- A structure is told by the entries of its mapping. -/
theorem Faithful.of_entries {entries : α → List (String × Tree)}
    (shown : ∀ a, toTree a = .map (entries a)) (told : ∀ a b, entries a = entries b → a = b) :
    Faithful α where
  told a b h := told a b (Tree.map.inj ((shown a).symm.trans (h.trans (shown b))))

end

/-! ### Leaves -/

instance : Faithful Fp := .of_read Leaf.field_toTree
instance : Faithful Bool := ⟨fun _ _ => Tree.bool.inj⟩
instance : Faithful String := ⟨fun _ _ => Tree.str.inj⟩
instance {width : Nat} : Faithful (BitVec width) := .of_read Leaf.word_toTree
instance : Faithful ActionState := .of_read Leaf.actionState_toTree
instance : Faithful PublicKey := .of_read Leaf.publicKey_toTree
instance : Faithful TokenSymbol := .of_read Leaf.tokenSymbol_toTree
instance : Faithful Uri := ⟨fun _ _ h => congrArg Uri.mk (Tree.str.inj h)⟩

instance : Faithful Auth where
  told a b h := by simpa [Leaf.auth_toTree] using congrArg Leaf.auth h

instance : Faithful Sign where
  told a b h := by simpa [Leaf.sign_toTree] using congrArg Leaf.sign h

instance : Faithful Network where
  told a b h := by
    have name := Tree.str.inj h
    cases a <;> cases b <;> simp_all [Network.name]

/-! ### Lists and optional values -/

section
variable {α : Type} [ToTree α]

theorem Solid.null_ne_toTree [Solid α] (a : α) : Tree.null ≠ toTree a := by
  intro same
  have given := (Solid.solid a).1
  rw [← same] at given
  cases given

/-- What is written without a flag is not taken for what is written with one. -/
theorem toTree_tagged_ne_flagged [Unflagged α] (value : Option α) (present : Bool) (payload : α) :
    toTree (Optional.tagged value) ≠ toTree (Optional.flagged present payload) := by
  intro same
  cases value with
  | none => cases same
  | some a =>
      have flag : (toTree a).get? "isSome" = some (toTree present) :=
        congrArg (Tree.get? "isSome") same
      rw [Unflagged.unflagged a] at flag
      cases flag

variable [Faithful α]

instance : Faithful (List α) :=
  ⟨fun _ _ h => List.map_injective_iff.mpr (Faithful.told (α := α)) (Tree.list.inj h)⟩

instance {n : Nat} : Faithful (Vector α n) :=
  ⟨fun a b h => Vector.toList_inj.mp (Faithful.told a.toList b.toList h)⟩

instance [Solid α] : Faithful (Option α) where
  told a b h := by
    cases a with
    | none =>
        cases b with
        | none => rfl
        | some b => exact absurd h (Solid.null_ne_toTree b)
    | some a =>
        cases b with
        | none => exact absurd h.symm (Solid.null_ne_toTree a)
        | some b => exact congrArg some (Faithful.told a b h)

instance [Solid α] [Unflagged α] : Faithful (Optional α) where
  told a b h := by
    cases a with
    | tagged value =>
        cases b with
        | tagged value' => exact congrArg Optional.tagged (Faithful.told value value' h)
        | flagged present payload => exact absurd h (toTree_tagged_ne_flagged value present payload)
    | flagged present payload =>
        cases b with
        | tagged value => exact absurd h.symm (toTree_tagged_ne_flagged value present payload)
        | flagged present' payload' => simpa using Tree.map.inj h

end

/-! ### Structures -/

instance {width : Nat} : Faithful (Range width) :=
  .of_entries (fun _ => rfl) fun a b h => by cases a; cases b; simpa using h

instance : Faithful BalanceChange :=
  .of_entries (fun _ => rfl) fun a b h => by cases a; cases b; simpa using h

instance : Faithful VerificationKey :=
  .of_entries (fun _ => rfl) fun a b h => by cases a; cases b; simpa using h

instance : Faithful SetVerificationKey :=
  .of_entries (fun _ => rfl) fun a b h => by cases a; cases b; simpa using h

instance : Faithful Permissions :=
  .of_entries (fun _ => rfl) fun a b h => by cases a; cases b; simpa using h

instance : Faithful Timing :=
  .of_entries (fun _ => rfl) fun a b h => by cases a; cases b; simpa using h

instance : Unflagged Fp := ⟨fun _ => rfl⟩
instance : Unflagged Bool := ⟨fun _ => rfl⟩
instance {width : Nat} : Unflagged (BitVec width) := ⟨fun _ => rfl⟩
instance : Unflagged ActionState := ⟨fun _ => rfl⟩
instance : Unflagged TokenSymbol := ⟨fun _ => rfl⟩
instance : Unflagged Uri := ⟨fun _ => rfl⟩
instance : Unflagged PublicKey := ⟨fun key => by cases key <;> rfl⟩
instance {width : Nat} : Unflagged (Range width) := ⟨fun _ => rfl⟩
instance : Unflagged VerificationKey := ⟨fun _ => rfl⟩
instance : Unflagged Permissions := ⟨fun _ => rfl⟩
instance : Unflagged Timing := ⟨fun _ => rfl⟩

instance : Faithful Update :=
  .of_entries (fun _ => rfl) fun a b h => by cases a; cases b; simpa using h

instance : Faithful EpochLedger :=
  .of_entries (fun _ => rfl) fun a b h => by cases a; cases b; simpa using h

instance : Faithful EpochData :=
  .of_entries (fun _ => rfl) fun a b h => by cases a; cases b; simpa using h

instance : Faithful NetworkPreconditions :=
  .of_entries (fun _ => rfl) fun a b h => by cases a; cases b; simpa using h

instance : Faithful AccountPreconditions :=
  .of_entries (fun _ => rfl) fun a b h => by cases a; cases b; simpa using h

instance : Faithful Preconditions :=
  .of_entries (fun _ => rfl) fun a b h => by cases a; cases b; simpa using h

instance : Faithful FeePayerBody :=
  .of_entries (fun _ => rfl) fun a b h => by cases a; cases b; simpa using h

instance : Faithful FeePayer :=
  .of_entries (fun _ => rfl) fun a b h => by cases a; cases b; simpa using h

instance : Faithful MayUseToken :=
  .of_entries (fun _ => rfl) fun a b h => by cases a; cases b; simpa using h

instance : Faithful AuthorizationKind :=
  .of_entries (fun _ => rfl) fun a b h => by cases a; cases b; simpa using h

instance : Faithful Authorization :=
  .of_entries (fun _ => rfl) fun a b h => by cases a; cases b; simpa using h

instance : Faithful AccountUpdateBody :=
  .of_entries (fun _ => rfl) fun a b h => by cases a; cases b; simpa using h

instance : Faithful AccountUpdate :=
  .of_entries (fun _ => rfl) fun a b h => by cases a; cases b; simpa using h

instance : Faithful Command :=
  .of_entries (fun _ => rfl) fun a b h => by cases a; cases b; simpa using h

instance : Faithful ExpectedHashes :=
  .of_entries (fun _ => rfl) fun a b h => by cases a; cases b; simpa using h

instance : Faithful Record :=
  .of_entries (fun _ => rfl) fun a b h => by cases a; cases b; simpa using h

end ZkCommand
