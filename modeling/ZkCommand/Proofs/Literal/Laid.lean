import ZkCommand.Literal.Record
import ZkCommand.Proofs.Literal.Legible

/-!
# ZkCommand.Proofs.Literal.Laid

**Layouts tell what they are made of.** The text of a layout tells the value that is laid out and
where the layout ends (`Told`, and `ToldAll` for what stands between two braces): every field names
a legible value, blocks open and close with words of their own, and the end of a list is indented
less than its items.
-/

namespace ZkCommand.Literal

namespace Layout

/-! ### Texts and what follows them -/

/-- The characters of a layout at a level, before others. -/
def put (level : Nat) (l : Layout) (s : List Char) : List Char := (render level l).toList ++ s

/-- The characters of layouts that follow one another, before others. -/
def putAll (level : Nat) (ls : List Layout) (s : List Char) : List Char :=
  (renderAll level ls).toList ++ s

variable {level : Nat} {s t : List Char}

@[simp] theorem putAll_nil : putAll level [] s = s := by
  rw [putAll, renderAll, String.toList_empty, List.nil_append]

@[simp] theorem putAll_cons (l : Layout) (ls : List Layout) :
    putAll level (l :: ls) s = put level l (putAll level ls s) := by
  simp only [put, putAll, renderAll, String.toList_append, List.append_assoc]

theorem putAll_append (ls ls' : List Layout) :
    putAll level (ls ++ ls') s = putAll level ls (putAll level ls' s) := by
  induction ls with
  | nil => rfl
  | cons l ls ih => rw [List.cons_append, putAll_cons, putAll_cons, ih]

theorem put_line (text : String) :
    put level (.line text) s
      = List.replicate (4 * level) ' ' ++ (text.toList ++ '\n' :: s) := by
  simp only [put, render, indented, String.toList_append, String.toList_ofList, List.append_assoc]
  rfl

theorem put_block (opening closing : String) (body : List Layout) :
    put level (.block opening body closing) s
      = put level (.line opening) (putAll (level + 1) body (put level (.line closing) s)) := by
  simp only [put, putAll, render, String.toList_append, List.append_assoc]

/-! ### Lines, fields and blocks -/

@[simp] theorem put_line_inj {text : String} :
    put level (.line text) s = put level (.line text) t ↔ s = t := by
  simp [put_line]

@[simp] theorem put_struct_inj {head tail : String} {body body' : List Layout} :
    put level (structWith head body tail) s = put level (structWith head body' tail) t ↔
      putAll (level + 1) body (put level (.line ("\x7d" ++ tail)) s)
        = putAll (level + 1) body' (put level (.line ("\x7d" ++ tail)) t) := by
  simp [structWith, put_block]

theorem put_field_inj {α : Type} {write : α → String} [Legible write] {key : String} {a b : α} :
    put level (field key (write a)) s = put level (field key (write b)) t ↔ a = b ∧ s = t := by
  constructor
  · intro h
    simp only [field, put_line, String.toList_append, List.append_assoc,
      List.append_cancel_left_eq] at h
    obtain ⟨same, rest⟩ := told_word rfl h
    exact ⟨same, (List.cons.inj rest).2⟩
  · intro h
    rw [h.1, h.2]

theorem put_field_between_inj {α : Type} {write : α → String} [Legible write]
    {key first : String} {a b : α} (last : String) (stop : halts last = true) :
    put level (field key (first ++ write a ++ last)) s
      = put level (field key (first ++ write b ++ last)) t ↔ a = b ∧ s = t := by
  have legible : Legible fun a => first ++ write a ++ last :=
    ⟨fun _ _ _ _ _ _ => told_between stop⟩
  exact @put_field_inj level s t α _ legible key a b

/-- What is indented more is not taken for the end of a list that is indented less. -/
theorem put_succ_ne_closing (l : Layout) : put (level + 1) l s ≠ put level (.line "],") t := by
  have line (text : String) (u : List Char) :
      put (level + 1) (.line text) u ≠ put level (.line "],") t := by
    have deeper : List.replicate (4 * (level + 1)) ' '
        = List.replicate (4 * level) ' ' ++ [' ', ' ', ' ', ' '] := by
      rw [Nat.mul_succ, ← List.replicate_append_replicate]
      rfl
    rw [put_line, put_line, deeper, List.append_assoc]
    intro same
    simp at same
  cases l with
  | line text => exact line text s
  | block opening body closing =>
      rw [put_block]
      exact line opening _

end Layout

open ZkCommand.Literal.Layout

/-- The text of a layout tells the value that is laid out, and where the layout ends. -/
class Told {α : Type} (layout : α → Layout) : Prop where
  told : ∀ (level : Nat) (a b : α) (s t : List Char),
    put level (layout a) s = put level (layout b) t → a = b ∧ s = t

/-- The text of layouts that follow one another tells the value that is laid out, and where they
end. -/
class ToldAll {α : Type} (body : α → List Layout) : Prop where
  told : ∀ (level : Nat) (a b : α) (s t : List Char),
    putAll level (body a) s = putAll level (body b) t → a = b ∧ s = t

section
variable {α : Type} {level : Nat} {s t : List Char}

theorem put_told {layout : α → Layout} [Told layout] {a b : α} :
    put level (layout a) s = put level (layout b) t ↔ a = b ∧ s = t :=
  ⟨Told.told level a b s t, fun h => by rw [h.1, h.2]⟩

theorem putAll_told {body : α → List Layout} [ToldAll body] {a b : α} :
    putAll level (body a) s = putAll level (body b) t ↔ a = b ∧ s = t :=
  ⟨ToldAll.told level a b s t, fun h => by rw [h.1, h.2]⟩

end

/-! ### Lists -/

@[simp] theorem put_vector_inj {level : Nat} {s t : List Char} {key : String}
    {items items' : List Layout} :
    put level (vector key items) s = put level (vector key items') t ↔
      putAll (level + 1) items (put level (.line "],") s)
        = putAll (level + 1) items' (put level (.line "],") t) := by
  simp only [vector, put_block, put_line_inj]

/-- A list of values, each with its number, ends at the bracket. -/
theorem told_items {α : Type} {layouts : Nat → α → List Layout} [told : ∀ i, ToldAll (layouts i)]
    (nonempty : ∀ i a, layouts i a ≠ []) {level : Nat} {as bs : List α} {s t : List Char}
    (h : putAll (level + 1) (as.mapIdx layouts).flatten (put level (.line "],") s)
      = putAll (level + 1) (bs.mapIdx layouts).flatten (put level (.line "],") t)) :
    as = bs ∧ s = t := by
  have unlike (i : Nat) (a : α) (rest : List Layout) (u v : List Char) :
      putAll (level + 1) (layouts i a ++ rest) u ≠ put level (.line "],") v := by
    obtain ⟨l, ls, first⟩ := List.exists_cons_of_ne_nil (nonempty i a)
    rw [first, List.cons_append, putAll_cons]
    exact put_succ_ne_closing l
  induction as generalizing bs layouts with
  | nil =>
      cases bs with
      | nil =>
          rw [List.mapIdx_nil, List.flatten_nil, putAll_nil, putAll_nil] at h
          exact ⟨rfl, put_line_inj.mp h⟩
      | cons b bs =>
          rw [List.mapIdx_nil, List.flatten_nil, putAll_nil, List.mapIdx_cons,
            List.flatten_cons] at h
          exact absurd h.symm (unlike 0 b _ _ _)
  | cons a as ih =>
      cases bs with
      | nil =>
          rw [List.mapIdx_nil, List.flatten_nil, putAll_nil, List.mapIdx_cons,
            List.flatten_cons] at h
          exact absurd h (unlike 0 a _ _ _)
      | cons b bs =>
          rw [List.mapIdx_cons, List.mapIdx_cons, List.flatten_cons, List.flatten_cons,
            putAll_append, putAll_append, putAll_told] at h
          obtain ⟨rfl, rest⟩ := h
          obtain ⟨rfl, behind⟩ := ih (fun i => nonempty (i + 1)) rest fun i => unlike (i + 1)
          exact ⟨rfl, behind⟩

instance : ToldAll fun xs : List Fp => [.line (inlineVector (xs.map element) ++ ",")] where
  told level a b s t h := by
    simp only [putAll_cons, putAll_nil, put_line, String.toList_append, List.append_assoc,
      List.append_cancel_left_eq] at h
    obtain ⟨same, rest⟩ := told_inlineVector h
    exact ⟨same, by simpa using rest⟩

theorem map_eq_flatten_mapIdx {α : Type} (layout : α → Layout) (as : List α) :
    as.map layout = (as.mapIdx fun _ a => [layout a]).flatten := by
  induction as with
  | nil => rfl
  | cons a as ih =>
      rw [List.map_cons, ih, List.mapIdx_cons, List.flatten_cons, List.singleton_append]

/-- A list without items ends on its first line. -/
instance {head : String} : Told (fieldLists head) where
  told level a b s t h := by
    cases a with
    | nil =>
        cases b with
        | nil => simpa [fieldLists, struct, field] using h
        | cons ys b => simp [fieldLists, struct, vector, field, put_block, put_line] at h
    | cons xs a =>
        cases b with
        | nil => simp [fieldLists, struct, vector, field, put_block, put_line] at h
        | cons ys b =>
            simp only [fieldLists, struct, put_struct_inj, List.isEmpty_cons, Bool.false_eq_true,
              if_false, putAll_cons, putAll_nil, put_vector_inj, map_eq_flatten_mapIdx] at h
            obtain ⟨same, rest⟩ := told_items (fun _ _ => List.cons_ne_nil _ _) h
            exact ⟨same, put_line_inj.mp rest⟩

/-! ### Blocks that may be absent -/

/-- The three forms of a block differ on their first line. -/
instance {α : Type} {key type : String} {body : α → List Layout} [ToldAll body] :
    Told (optionalBlock key type body) where
  told level a b s t h := by
    rcases a with (_ | value) | ⟨present, payload⟩ <;>
      rcases b with (_ | value') | ⟨present', payload'⟩
    case tagged.none.tagged.none => simpa [optionalBlock, field] using h
    case tagged.some.tagged.some => simpa [optionalBlock, putAll_told] using h
    case flagged.flagged =>
      simpa [optionalBlock, struct, put_field_inj, putAll_told, and_assoc] using h
    all_goals
      simp [optionalBlock, struct, structWith, field, put_block, put_line] at h

/-! ### Structures -/

attribute [ext] VerificationKey SetVerificationKey Permissions Timing Update EpochLedger EpochData
  NetworkPreconditions AccountPreconditions Preconditions BalanceChange MayUseToken
  AuthorizationKind AccountUpdateBody FeePayerBody FeePayer

instance : ToldAll verificationKey where
  told level a b s t h := by
    simpa [verificationKey, put_field_inj, VerificationKey.ext_iff, and_assoc] using h

instance : ToldAll permissions where
  told level a b s t h := by
    simpa [permissions, struct, put_field_inj, Permissions.ext_iff, SetVerificationKey.ext_iff,
      and_assoc] using h

instance : ToldAll timing where
  told level a b s t h := by
    simpa [timing, put_field_inj, Timing.ext_iff, and_assoc] using h

instance : Told update where
  told level a b s t h := by
    simpa [update, struct, put_field_inj, put_told, Update.ext_iff, and_assoc] using h

instance {key : String} : Told (epoch key) where
  told level a b s t h := by
    simpa [epoch, struct, put_field_inj, EpochData.ext_iff, EpochLedger.ext_iff,
      and_assoc] using h

instance : Told networkPreconditions where
  told level a b s t h := by
    simpa [networkPreconditions, struct, put_field_inj, put_told, NetworkPreconditions.ext_iff,
      and_assoc] using h

instance : Told accountPreconditions where
  told level a b s t h := by
    simpa [accountPreconditions, struct, put_field_inj, AccountPreconditions.ext_iff,
      and_assoc] using h

instance : Told preconditions where
  told level a b s t h := by
    simpa [preconditions, struct, put_field_inj, put_told, Preconditions.ext_iff,
      and_assoc] using h

instance : Told accountUpdateBody where
  told level a b s t h := by
    simpa [accountUpdateBody, struct, put_field_inj, put_field_between_inj ")" rfl, put_told,
      AccountUpdateBody.ext_iff, BalanceChange.ext_iff, MayUseToken.ext_iff,
      AuthorizationKind.ext_iff, and_assoc] using h

instance : Told feePayer where
  told level a b s t h := by
    simpa [feePayer, struct, put_field_inj, FeePayer.ext_iff, FeePayerBody.ext_iff,
      and_assoc] using h

end ZkCommand.Literal
