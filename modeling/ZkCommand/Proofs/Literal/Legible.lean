import ZkCommand.Literal.Inline
import ZkCommand.Proofs.Decimal
import ZkCommand.Proofs.Text.Embedded

/-!
# ZkCommand.Proofs.Literal.Legible

**Values on one line tell what they are.** What is written for a value tells the value and where its
text ends (`Legible`), unless it is a numeral and a digit follows. No two of the forms in which a
value may be written start alike, texts end at their closing quote, and everything else stands
between words that halt a numeral.
-/

namespace ZkCommand.Literal

/-- No digit comes first. -/
def Stops (s : List Char) : Prop := s.head?.any Char.isDigit = false

/-- A word whose first character is no digit. -/
def halts (word : String) : Bool := word.toList.head?.any fun c => !c.isDigit

/-- What is written for a value tells the value and where its text ends. -/
class Legible {α : Type} (write : α → String) : Prop where
  told : ∀ (a b : α) (s t : List Char), Stops s → Stops t →
    (write a).toList ++ s = (write b).toList ++ t → a = b ∧ s = t

/-! ### Values between words -/

theorem stops_append {word : String} (h : halts word = true) (s : List Char) :
    Stops (word.toList ++ s) := by
  unfold halts at h
  unfold Stops
  cases chars : word.toList with
  | nil => simp [chars] at h
  | cons c rest => simpa [chars] using h

section
variable {α β : Type} {f : α → String} {g : β → String} [Legible f] [Legible g]
  {first between last : String} {s t : List Char}

theorem told_word {a a' : α} (stop : halts last = true)
    (h : (f a).toList ++ (last.toList ++ s) = (f a').toList ++ (last.toList ++ t)) :
    a = a' ∧ s = t := by
  obtain ⟨same, rest⟩ := Legible.told _ _ _ _ (stops_append stop s) (stops_append stop t) h
  exact ⟨same, List.append_cancel_left rest⟩

theorem told_before {a a' : α} (stop : halts last = true)
    (h : (f a ++ last).toList ++ s = (f a' ++ last).toList ++ t) : a = a' ∧ s = t := by
  simp only [String.toList_append, List.append_assoc] at h
  exact told_word stop h

theorem told_between {a a' : α} (stop : halts last = true)
    (h : (first ++ f a ++ last).toList ++ s = (first ++ f a' ++ last).toList ++ t) :
    a = a' ∧ s = t := by
  simp only [String.toList_append, List.append_assoc, List.append_cancel_left_eq] at h
  exact told_word stop h

theorem told_both {a a' : α} {b b' : β} (stop : halts between = true) (stop' : halts last = true)
    (h : (first ++ f a ++ between ++ g b ++ last).toList ++ s
      = (first ++ f a' ++ between ++ g b' ++ last).toList ++ t) :
    a = a' ∧ b = b' ∧ s = t := by
  simp only [String.toList_append, List.append_assoc, List.append_cancel_left_eq] at h
  obtain ⟨same, rest⟩ := told_word stop h
  exact ⟨same, told_word stop' rest⟩

end

/-! ### Numerals, words and texts -/

theorem told_numeral {m n : Nat} {s t : List Char} (hs : Stops s) (ht : Stops t)
    (h : (Decimal.text m).toList ++ s = (Decimal.text n).toList ++ t) : m = n ∧ s = t := by
  simp only [Decimal.toList_text] at h
  have digits (k : Nat) : ∀ c ∈ Decimal.write k, c.isDigit = true :=
    fun c => Decimal.isDigit_of_mem_write
  obtain ⟨run, rest⟩ := Text.takeWhile_append_of_head (digits m) hs
  obtain ⟨run', rest'⟩ := Text.takeWhile_append_of_head (digits n) ht
  rw [h, run'] at run
  rw [h, rest'] at rest
  exact ⟨by rw [← Decimal.read_write m, ← Decimal.read_write n, run], rest.symm⟩

instance : Legible Fp.decimal where
  told x y s t hs ht h := by
    obtain ⟨m, hm⟩ := x
    obtain ⟨n, hn⟩ := y
    obtain ⟨rfl, rest⟩ := told_numeral hs ht h
    exact ⟨rfl, rest⟩

instance {width : Nat} : Legible (@word width) where
  told v w s t hs ht h := by
    obtain ⟨same, rest⟩ := told_numeral hs ht h
    exact ⟨BitVec.eq_of_toNat_eq same, rest⟩

instance : Legible quoted where
  told a b s t _ _ h := by
    simp only [quoted, Text.embedded, String.toList_append, String.toList_ofList,
      List.append_assoc, List.append_cancel_left_eq] at h
    obtain ⟨same, rest⟩ := Text.embed_append_inj h
    exact ⟨String.toList_inj.mp same, rest⟩

instance : Legible bool where
  told a b s t _ _ h := by cases a <;> cases b <;> simp_all [bool]

instance : Legible auth where
  told a b s t _ _ h := by cases a <;> cases b <;> simp_all [auth, Auth.label]

instance : Legible sign where
  told a b s t _ _ h := by cases a <;> cases b <;> simp_all [sign]

instance : Legible network where
  told a b s t _ _ h := by cases a <;> cases b <;> simp_all [network]

/-! ### Composite values -/

instance : Legible parsedElement := ⟨fun _ _ _ _ _ _ => told_between rfl⟩
instance : Legible element := ⟨fun _ _ _ _ _ _ => told_between rfl⟩
instance : Legible textBytes := ⟨fun _ _ _ _ _ _ => told_before rfl⟩
instance : Legible ownedText := ⟨fun _ _ _ _ _ _ => told_before rfl⟩

instance : Legible uri where
  told a b s t _ _ h := by
    obtain ⟨text, rest⟩ := told_between rfl h
    exact ⟨congrArg Uri.mk text, rest⟩

instance : Legible tokenSymbol where
  told a b s t _ _ h := by
    obtain ⟨text, rest⟩ := told_between rfl h
    cases a
    cases b
    simp_all

instance : Legible actionState where
  told a b s t _ _ h := by
    obtain ⟨hash, rest⟩ := told_between rfl h
    exact ⟨congrArg ActionState.mk hash, rest⟩

instance {width : Nat} : Legible (@range width) where
  told a b s t _ _ h := by
    obtain ⟨lower, upper, rest⟩ := told_both rfl rfl h
    cases a
    cases b
    simp_all

theorem publicKey_address (text : String) :
    publicKey (.address text)
      = "PublicKey(CompressedPubKey::from_address(" ++ quoted text ++ ").unwrap())" := rfl

theorem publicKey_point (x : Fp) (isOdd : Bool) :
    publicKey (.point x isOdd) = "PublicKey(CompressedPubKey \x7b x: " ++ parsedElement x
      ++ ", is_odd: " ++ bool isOdd ++ " \x7d)" := rfl

/-- An address and a point start with different words. -/
instance : Legible publicKey where
  told a b s t _ _ h := by
    cases a with
    | address text =>
        cases b with
        | address text' =>
            rw [publicKey_address, publicKey_address] at h
            obtain ⟨same, rest⟩ := told_between rfl h
            exact ⟨congrArg PublicKey.address same, rest⟩
        | point x isOdd => simp [publicKey_address, publicKey_point] at h
    | point x isOdd =>
        cases b with
        | address text => simp [publicKey_address, publicKey_point] at h
        | point x' isOdd' =>
            rw [publicKey_point, publicKey_point] at h
            obtain ⟨same, same', rest⟩ := told_both rfl rfl h
            exact ⟨congrArg₂ PublicKey.point same same', rest⟩

/-! ### Values that may be absent, and lists -/

section
variable {α : Type} {write : α → String}

theorem optional_none : optional write (.tagged none) = "None" := rfl

theorem optional_some (a : α) : optional write (.tagged (some a)) = "Some(" ++ write a ++ ")" := rfl

theorem optional_flagged (present : Bool) (payload : α) :
    optional write (.flagged present payload) = "Flagged \x7b is_some: " ++ bool present
      ++ ", value: " ++ write payload ++ " \x7d" := rfl

theorem optional_opens (o : Optional α) :
    (optional write o).toList.head?.any (· ≠ ']') = true := by
  rcases o with (_ | value) | ⟨present, payload⟩
  · simp [optional_none]
  · simp [optional_some]
  · simp [optional_flagged]

variable [Legible write]

/-- The three forms of an optional value start with different letters. -/
instance : Legible (optional write) where
  told a b s t _ _ h := by
    rcases a with (_ | value) | ⟨present, payload⟩ <;>
      rcases b with (_ | value') | ⟨present', payload'⟩
    case tagged.none.tagged.none => exact ⟨rfl, List.append_cancel_left h⟩
    case tagged.some.tagged.some =>
      rw [optional_some, optional_some] at h
      obtain ⟨same, rest⟩ := told_between rfl h
      rw [same]
      exact ⟨rfl, rest⟩
    case flagged.flagged =>
      rw [optional_flagged, optional_flagged] at h
      obtain ⟨flag, same, rest⟩ := told_both rfl rfl h
      rw [flag, same]
      exact ⟨rfl, rest⟩
    all_goals simp [optional_none, optional_some, optional_flagged] at h

/-- What stands behind the first of some texts that are set off by commas. -/
def continued : List String → String
  | [] => ""
  | rest => ", " ++ commaSeparated rest

theorem commaSeparated_cons (first : String) (rest : List String) :
    commaSeparated (first :: rest) = first ++ continued rest := by
  cases rest with
  | nil => exact (String.append_empty).symm
  | cons second rest => exact String.append_assoc

theorem stops_continued (rest : List String) (s : List Char) :
    Stops ((continued rest).toList ++ ']' :: s) := by
  cases rest with
  | nil => rfl
  | cons second rest => simp [continued, Stops]

/-- A list ends at its bracket if no value starts with one. -/
theorem told_commaSeparated (opens : ∀ a, (write a).toList.head?.any (· ≠ ']') = true)
    {as bs : List α} {s t : List Char}
    (h : (commaSeparated (as.map write)).toList ++ ']' :: s
      = (commaSeparated (bs.map write)).toList ++ ']' :: t) : as = bs ∧ s = t := by
  have unlike (c : α) (cs : List α) (u v : List Char) :
      (commaSeparated ((c :: cs).map write)).toList ++ u ≠ ']' :: v := by
    intro same
    have head := opens c
    rw [List.map_cons, commaSeparated_cons, String.toList_append] at same
    cases chars : (write c).toList with
    | nil => simp [chars] at head
    | cons d rest =>
        obtain ⟨rfl, -⟩ : d = ']' ∧ _ := by simpa [chars] using same
        simp [chars] at head
  induction as generalizing bs with
  | nil =>
      cases bs with
      | nil => exact ⟨rfl, (List.cons.inj h).2⟩
      | cons b bs => exact absurd h.symm (unlike b bs _ _)
  | cons a as ih =>
      cases bs with
      | nil => exact absurd h (unlike a as _ _)
      | cons b bs =>
          simp only [List.map_cons, commaSeparated_cons, String.toList_append,
            List.append_assoc] at h
          obtain ⟨rfl, rest⟩ := Legible.told a b _ _ (stops_continued _ s) (stops_continued _ t) h
          cases as with
          | nil =>
              cases bs with
              | nil => exact ⟨rfl, (List.cons.inj rest).2⟩
              | cons b bs => simp [continued] at rest
          | cons a as =>
              cases bs with
              | nil => simp [continued] at rest
              | cons b bs =>
                  simp only [List.map_cons, continued, String.toList_append, List.append_assoc,
                    List.append_cancel_left_eq] at rest
                  obtain ⟨same, behind⟩ := @ih (b :: bs) rest
                  exact ⟨by rw [same], behind⟩

end

theorem element_opens (x : Fp) : (element x).toList.head?.any (· ≠ ']') = true := by
  simp [element]

theorem told_inlineVector {xs ys : List Fp} {s t : List Char}
    (h : (inlineVector (xs.map element)).toList ++ s
      = (inlineVector (ys.map element)).toList ++ t) : xs = ys ∧ s = t := by
  simp only [inlineVector, String.toList_append, List.append_assoc,
    List.append_cancel_left_eq] at h
  exact told_commaSeparated element_opens h

instance : Legible slots where
  told a b s t _ _ h := by
    simp only [slots, String.toList_append, List.append_assoc, List.append_cancel_left_eq] at h
    obtain ⟨same, rest⟩ := told_commaSeparated optional_opens h
    exact ⟨Vector.toList_inj.mp same, rest⟩

end ZkCommand.Literal
