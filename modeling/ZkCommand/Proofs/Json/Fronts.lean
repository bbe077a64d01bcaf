import ZkCommand.Proofs.Json.Values

/-!
# ZkCommand.Proofs.Json.Fronts

**What stands at the front of a JSON text.** The readers as relations between a text, a value and
the rest of the text, with one rule for each way in which a reader succeeds. `gives_value_iff` says
that the readers do what the rules say, so that a property of every successful reading is proved
rule by rule, and no proof about readings has to open a reader again.
-/

namespace ZkCommand.Json

open Text

/-- A relation between a text, what stands at its front, and the rest. -/
abbrev Front (α : Type) := List Char → α → List Char → Prop

/-- The first visible character of a text is `c`, and `r` follows it. -/
def Leads (s : List Char) (c : Char) (r : List Char) : Prop :=
  ∃ sp, AllSpace sp ∧ isSpace c = false ∧ s = sp ++ c :: r

theorem leads_of_skipSpace {s r : List Char} {c : Char} (h : (skipSpace s).rest = c :: r) :
    Leads s c r := by
  refine ⟨s.takeWhile isSpace, fun d hd => List.mem_takeWhile_imp hd, ?_, ?_⟩
  · have visible : (s.dropWhile isSpace).head?.any isSpace = false := head?_dropWhile s
    have left : s.dropWhile isSpace = c :: r := h
    rw [left] at visible
    exact visible
  · have left : s.dropWhile isSpace = c :: r := h
    rw [← left]
    exact List.takeWhile_append_dropWhile.symm

theorem Leads.skipSpace {s r : List Char} {c : Char} (h : Leads s c r) :
    (skipSpace s).rest = c :: r := by
  obtain ⟨sp, spaces, visible, rfl⟩ := h
  obtain ⟨_, skip⟩ := skipSpace_append spaces visible r
  rw [skip]

theorem Leads.unique {s r r' : List Char} {c d : Char} (h : Leads s c r) (h' : Leads s d r') :
    c = d ∧ r = r' :=
  List.cons.inj (h.skipSpace.symm.trans h'.skipSpace)

theorem leads_cons {c : Char} (visible : isSpace c = false) (r : List Char) : Leads (c :: r) c r :=
  ⟨[], AllSpace.nil, visible, rfl⟩

/-- White space in front of a text does not change what leads it. -/
theorem Leads.iff_cons {s r r' : List Char} {c d : Char} (h : Leads s c r) :
    Leads s d r' ↔ Leads (c :: r) d r' := by
  obtain ⟨-, -, visible, -⟩ := id h
  constructor
  · intro h'
    obtain ⟨rfl, rfl⟩ := h.unique h'
    exact leads_cons visible r
  · intro h'
    obtain ⟨rfl, rfl⟩ := (leads_cons visible r).unique h'
    exact h

namespace Front

variable {α : Type}

/-- What is related to a text by its first visible character and what follows that. -/
def Led (at_ : Char → Front α) : Front α := fun s a rest => ∃ c r, Leads s c r ∧ at_ c r a rest

/-- White space in front of a text does not matter to a relation. -/
def Skips (one : Front α) : Prop :=
  ∀ {s r rest : List Char} {c : Char} {a : α}, Leads s c r → (one s a rest ↔ one (c :: r) a rest)

theorem skips_led (at_ : Char → Front α) : Skips (Led at_) := fun h =>
  exists_congr fun _ => exists_congr fun _ => and_congr_left' h.iff_cons

/-! ### Lists and mappings -/

section
variable (close : Char) (one : Front α)

/-- What follows the first member of a list or mapping, up to what closes it. -/
inductive More : Front (List α)
  | close {s rest : List Char} (lead : Leads s close rest) : More s [] rest
  | comma {s r mid rest : List Char} {first : α} {others : List α} (lead : Leads s ',' r)
      (member : one r first mid) (more : More mid others rest) : More s (first :: others) rest

/-- The members of a list or mapping after the bracket or brace that opens it. -/
inductive Listed : Front (List α)
  | empty {s rest : List Char} (lead : Leads s close rest) : Listed s [] rest
  | first {s mid rest : List Char} {first : α} {others : List α}
      (member : one s first mid) (more : More close one mid others rest) :
      Listed s (first :: others) rest

end

/-- An entry of a mapping from its key on. -/
inductive EntryAt (one : Front Tree) : Char → Front (String × Tree)
  | mk {r afterKey v rest key : List Char} {t : Tree} (read : Gives (quotedBody r) key afterKey)
      (colon : Leads afterKey ':' v) (value : one v t rest) :
      EntryAt one '"' r (String.ofList key, t) rest

/-! ### Values -/

/-- The characters of a string. -/
def Quoted : Front (List Char) := fun s body rest =>
  ∃ r, Leads s '"' r ∧ Gives (quotedBody r) body rest

/-- The number in a string. -/
def Numeral : Front Tree := fun s t rest =>
  ∃ body kept, Quoted s body rest ∧ numeral body = .ok kept ∧ t = .num (String.ofList kept)

/-- A word, a number or a string. -/
inductive ScalarAt : Char → Front Tree
  | word {c : Char} {letters r rest : List Char} {t : Tree} (word : (c, letters, t) ∈ words)
      (text : r = letters ++ rest) : ScalarAt c r t rest
  | number {c : Char} {r rest kept : List Char} (start : c.isDigit = true ∨ c = '-')
      (read : Gives (number (c :: r)) kept rest) : ScalarAt c r (.num (String.ofList kept)) rest
  | string {r rest body : List Char} (read : Gives (quotedBody r) body rest) :
      ScalarAt '"' r (.str (String.ofList body)) rest

/-- What the entries between two braces stand for: a mapping, or the number in the text under the
only key. -/
inductive Denotes : List (String × Tree) → Tree → Prop
  | mapping {es : List (String × Tree)} (other : ∀ e ∈ es.head?, e.1 ≠ numberKey) :
      Denotes es (mapOfEntries es)
  | number {text kept : List Char} (read : numeral text = .ok kept) :
      Denotes [(numberKey, .str (String.ofList text))] (.num (String.ofList kept))

/-- A scalar, or a list or a mapping of what stands at a front, if these may be here. -/
inductive ValueAt (inner : Option (Front Tree)) : Char → Front Tree
  | scalar {c : Char} {r rest : List Char} {t : Tree} (scalar : ScalarAt c r t rest) :
      ValueAt inner c r t rest
  | list {r rest : List Char} {one : Front Tree} {ts : List Tree} (level : inner = some one)
      (members : Listed ']' one r ts rest) : ValueAt inner '[' r (.list ts) rest
  | mapping {r rest : List Char} {one : Front Tree} {es : List (String × Tree)} {t : Tree}
      (level : inner = some one) (members : Listed '\x7d' (Led (EntryAt one)) r es rest)
      (denotes : Denotes es t) : ValueAt inner '\x7b' r t rest

/-- A value with so many levels of lists and mappings left. -/
def Value : Nat → Front Tree
  | 0 => Led (ValueAt none)
  | levels + 1 => Led (ValueAt (some (Value levels)))

theorem skips_value (levels : Nat) : Skips (Value levels) := by
  cases levels <;> exact skips_led _

/-- The strings among what is related are read as strings. -/
def Texts (one : Front Tree) : Prop :=
  ∀ {s rest body : List Char}, one s (.str (String.ofList body)) rest ↔ Quoted s body rest

theorem texts_led (inner : Option (Front Tree)) : Texts (Led (ValueAt inner)) := by
  intro s rest body
  constructor
  · intro h
    obtain ⟨c, r, lead, at_⟩ := h
    generalize text : Tree.str (String.ofList body) = t at at_
    cases at_ with
    | scalar scalar =>
        cases scalar with
        | word word =>
            subst text
            rcases word_cases word with ⟨-, -, no⟩ | ⟨-, -, no⟩ | ⟨-, -, no⟩ <;> cases no
        | number => cases text
        | string read =>
            obtain rfl := String.ofList_injective (Tree.str.inj text)
            exact ⟨r, lead, read⟩
    | list => cases text
    | mapping level members denotes => cases denotes <;> cases text
  · intro h
    obtain ⟨r, lead, read⟩ := h
    exact ⟨'"', r, lead, .scalar (.string read)⟩

theorem texts_value (levels : Nat) : Texts (Value levels) := by
  cases levels <;> exact texts_led _

/-! ### Readers and relations -/

section
variable (item : Reader Tree) (one : Front Tree)

/-- What a reader takes is related. -/
def Sound : Prop :=
  ∀ ⦃s rest : List Char⦄ ⦃t : Tree⦄, Gives (item s) t rest → one s t rest

/-- What is related is taken by a reader. -/
def Complete : Prop :=
  ∀ ⦃s rest : List Char⦄ ⦃t : Tree⦄, one s t rest → Gives (item s) t rest

/-- What is related starts with no closing bracket. -/
def Opens : Prop :=
  ∀ ⦃s rest : List Char⦄ ⦃t : Tree⦄, one s t rest → ∃ c r, Leads s c r ∧ c ≠ ']'

end

end Front

/-! ### What the readers take is related -/

theorem wordTail_eq {letters s : List Char} {p : Parsed Unit (s.length + 1)}
    (h : wordTail letters s = .ok p) : s = letters ++ p.rest := by
  induction letters generalizing s with
  | nil =>
      obtain rfl := Except.ok.inj h
      rfl
  | cons l ls ih =>
      cases s with
      | nil => cases h
      | cons c r =>
          change (if c = l then _ else _) = _ at h
          split at h
          · rename_i same
            obtain ⟨tail, read, h⟩ := bind_eq_ok_iff.mp h
            obtain rfl := Except.ok.inj h
            rw [same]
            exact congrArg (l :: ·) (ih read)
          · cases h

section
variable {item : Reader Tree} {one : Front Tree}

theorem front_of_moreItems (sound : Front.Sound item one)
    {s rest : List Char} {ts : List Tree} (h : Gives (moreItems item s) ts rest) :
    Front.More ']' one s ts rest := by
  induction hn : s.length using Nat.strongRecOn generalizing s ts with
  | _ n ih =>
    obtain ⟨short, h⟩ := h
    rw [moreItems] at h
    split at h
    · cases h
    · rename_i c r within skip
      have lead : Leads s c r := leads_of_skipSpace (by rw [skip])
      split at h
      · rename_i close
        cases h
        exact .close (close ▸ lead)
      · split at h
        · rename_i comma
          split at h
          · cases h
          · obtain ⟨first, read, h⟩ := bind_eq_ok_iff.mp h
            obtain ⟨others, readOthers, h⟩ := bind_eq_ok_iff.mp h
            cases h
            refine .comma (comma ▸ lead) (sound ⟨first.rest_lt, read⟩) ?_
            refine ih first.rest.length ?_ ⟨others.rest_lt, readOthers⟩ rfl
            grind
        · cases h

theorem front_of_items (sound : Front.Sound item one)
    (skips : Front.Skips one) {s rest : List Char} {ts : List Tree}
    (h : Gives (items item s) ts rest) : Front.Listed ']' one s ts rest := by
  obtain ⟨short, h⟩ := h
  rw [items] at h
  split at h
  · cases h
  · rename_i c r within skip
    have lead : Leads s c r := leads_of_skipSpace (by rw [skip])
    split at h
    · rename_i close
      cases h
      exact .empty (close ▸ lead)
    · obtain ⟨first, read, h⟩ := bind_eq_ok_iff.mp h
      obtain ⟨others, readOthers, h⟩ := bind_eq_ok_iff.mp h
      cases h
      exact .first ((skips lead).mpr (sound ⟨first.rest_lt, read⟩))
        (front_of_moreItems sound ⟨others.rest_lt, readOthers⟩)

theorem front_of_entry (sound : Front.Sound item one)
    {s rest : List Char} {e : String × Tree} (h : Gives (entry item s) e rest) :
    Front.Led (Front.EntryAt one) s e rest := by
  obtain ⟨short, h⟩ := h
  cases s with
  | nil => cases h
  | cons c s =>
      rw [entry] at h
      split at h
      · rename_i quote
        obtain ⟨key, read, h⟩ := bind_eq_ok_iff.mp h
        split at h
        · cases h
        · rename_i d r within skip
          split at h
          · rename_i colon
            obtain ⟨val, readValue, h⟩ := bind_eq_ok_iff.mp h
            cases h
            have lead : Leads key.rest d r := leads_of_skipSpace (by rw [skip])
            refine ⟨c, s, leads_cons (quote ▸ by decide) s, ?_⟩
            exact quote ▸ .mk ⟨key.rest_lt, read⟩ (colon ▸ lead) (sound ⟨val.rest_lt, readValue⟩)
          · cases h
      · cases h

theorem front_of_moreEntries (sound : Front.Sound item one)
    {s rest : List Char} {es : List (String × Tree)} (h : Gives (moreEntries item s) es rest) :
    Front.More '\x7d' (Front.Led (Front.EntryAt one)) s es rest := by
  induction hn : s.length using Nat.strongRecOn generalizing s es with
  | _ n ih =>
    obtain ⟨short, h⟩ := h
    rw [moreEntries] at h
    split at h
    · cases h
    · rename_i c r within skip
      have lead : Leads s c r := leads_of_skipSpace (by rw [skip])
      split at h
      · rename_i close
        cases h
        exact .close (close ▸ lead)
      · split at h
        · rename_i comma
          split at h
          rename_i t shorter skip'
          split at h
          · cases h
          · obtain ⟨first, read, h⟩ := bind_eq_ok_iff.mp h
            obtain ⟨others, readOthers, h⟩ := bind_eq_ok_iff.mp h
            cases h
            have shorterRest : first.rest.length < n := by grind
            refine .comma (comma ▸ lead) ?_ (ih _ shorterRest ⟨others.rest_lt, readOthers⟩ rfl)
            have member := front_of_entry sound ⟨first.rest_lt, read⟩
            cases t with
            | nil => cases read
            | cons d t => exact (Front.skips_led _ (leads_of_skipSpace (by rw [skip']))).mpr member
        · cases h

theorem front_of_entries (sound : Front.Sound item one)
    {s rest : List Char} {es : List (String × Tree)} (h : Gives (entries item s) es rest) :
    Front.Listed '\x7d' (Front.Led (Front.EntryAt one)) s es rest := by
  obtain ⟨short, h⟩ := h
  rw [entries] at h
  split at h
  · cases h
  · rename_i c r within skip
    have lead : Leads s c r := leads_of_skipSpace (by rw [skip])
    split at h
    · rename_i close
      cases h
      exact .empty (close ▸ lead)
    · obtain ⟨first, read, h⟩ := bind_eq_ok_iff.mp h
      obtain ⟨others, readOthers, h⟩ := bind_eq_ok_iff.mp h
      cases h
      exact .first ((Front.skips_led _ lead).mpr (front_of_entry sound ⟨first.rest_lt, read⟩))
        (front_of_moreEntries sound ⟨others.rest_lt, readOthers⟩)

end

theorem scalarAt_of_scalar {c : Char} {r rest : List Char} {t : Tree}
    (h : Gives (scalar (c :: r)) t rest) : Front.ScalarAt c r t rest := by
  obtain ⟨short, h⟩ := h
  rw [scalar] at h
  have word {letters : List Char} {a : Tree} (known : (c, letters, a) ∈ words)
      (h : (do
          let word ← wordTail letters r
          Except.ok (⟨a, word.rest, word.rest_lt⟩ : Parsed Tree (c :: r).length))
        = Except.ok ⟨t, rest, short⟩) : Front.ScalarAt c r t rest := by
    obtain ⟨p, read, h⟩ := bind_eq_ok_iff.mp h
    cases h
    exact .word known (wordTail_eq read)
  -- The first character decides what the scalar is.
  split at h
  · rename_i same
    exact word (same ▸ by simp [words]) h
  split at h
  · rename_i same
    exact word (same ▸ by simp [words]) h
  split at h
  · rename_i same
    exact word (same ▸ by simp [words]) h
  split at h
  · rename_i start
    obtain ⟨literal, read, h⟩ := bind_eq_ok_iff.mp h
    cases h
    exact .number start.symm ⟨literal.rest_lt, read⟩
  split at h
  · rename_i same
    obtain ⟨body, read, h⟩ := bind_eq_ok_iff.mp h
    cases h
    exact same ▸ .string ⟨body.rest_lt, read⟩
  · cases h

theorem quoted_of_scalar {s r rest : List Char} {c : Char} {text : String} (lead : Leads s c r)
    (h : Gives (scalar (c :: r)) (.str text) rest) : Front.Quoted s text.toList rest := by
  have front : Front.Led (Front.ValueAt none) s (.str (String.ofList text.toList)) rest := by
    rw [String.ofList_toList]
    exact ⟨c, r, lead, .scalar (scalarAt_of_scalar h)⟩
  exact (Front.texts_led none).mp front

theorem numeral_of_numberText : Front.Sound numberText Front.Numeral := by
  intro s rest t h
  obtain ⟨short, h⟩ := h
  rw [numberText] at h
  split at h
  · cases h
  rename_i c r within skip
  have lead : Leads s c r := leads_of_skipSpace (by rw [skip])
  split at h
  · cases h
  split at h
  · cases h
  obtain ⟨leaf, read, h⟩ := bind_eq_ok_iff.mp h
  have scalar : Gives (scalar (c :: r)) leaf.value leaf.rest := ⟨leaf.rest_lt, read⟩
  split at h
  · rename_i text found
    obtain ⟨kept, number, h⟩ := bind_eq_ok_iff.mp h
    cases h
    exact ⟨text.toList, kept, quoted_of_scalar lead (found ▸ scalar), number, rfl⟩
  · cases h

/-- The first key behind an opening brace is the one for a number. -/
theorem opensNumber_eq_true_iff {s : List Char} :
    opensNumber s = true ↔
      ∃ body rest, Front.Quoted s body rest ∧ String.ofList body = numberKey := by
  constructor
  · intro h
    rw [opensNumber] at h
    split at h
    · cases h
    rename_i c r left
    split at h
    · rename_i quote
      split at h
      · rename_i key read
        exact ⟨key.value, key.rest, ⟨r, quote ▸ leads_of_skipSpace left, key.rest_lt, read⟩,
          of_decide_eq_true h⟩
      · cases h
    · cases h
  · intro h
    obtain ⟨body, rest, ⟨r, ⟨sp, spaces, -, rfl⟩, read⟩, same⟩ := h
    rw [opensNumber_quote spaces read]
    exact decide_eq_true same

theorem Front.Quoted.unique {s body body' rest rest' : List Char} (h : Front.Quoted s body rest)
    (h' : Front.Quoted s body' rest') : body = body' ∧ rest = rest' := by
  obtain ⟨r, lead, read⟩ := h
  obtain ⟨r', lead', read'⟩ := h'
  obtain ⟨-, rfl⟩ := lead.unique lead'
  exact read.unique read'

/-- An entry starts with its key. -/
theorem Front.Led.exists_key {one : Front Tree} {s rest : List Char} {e : String × Tree}
    (h : Front.Led (Front.EntryAt one) s e rest) :
    ∃ body rest', Front.Quoted s body rest' ∧ String.ofList body = e.1 := by
  obtain ⟨c, r, lead, entry⟩ := h
  cases entry with
  | mk read => exact ⟨_, _, ⟨r, lead, read⟩, rfl⟩

/-- The entries ahead stand for a number if their first key says so. -/
theorem opensNumber_of_listed {one : Front Tree} {s rest : List Char} {es : List (String × Tree)}
    (h : Front.Listed '\x7d' (Front.Led (Front.EntryAt one)) s es rest) :
    opensNumber s = true ↔ ∃ e ∈ es.head?, e.1 = numberKey := by
  rw [opensNumber_eq_true_iff]
  cases h with
  | empty lead =>
      refine iff_of_false ?_ (by simp)
      intro h
      obtain ⟨body, rest', ⟨r, lead', -⟩, -⟩ := h
      exact absurd (lead.unique lead').1 (by decide)
  | first member =>
      obtain ⟨body, rest', key, same⟩ := member.exists_key
      constructor
      · intro h
        obtain ⟨body', rest'', key', same'⟩ := h
        obtain ⟨rfl, -⟩ := key.unique key'
        exact ⟨_, rfl, same ▸ same'⟩
      · intro h
        obtain ⟨e, first, number⟩ := h
        obtain rfl := Option.some.inj first
        exact ⟨body, rest', key, same.trans number⟩

/-- An entry of a number is one of a string in which the number stands. -/
theorem entryAt_numeral_iff {one : Front Tree} (texts : Front.Texts one) {c : Char}
    {r rest : List Char} {key : String} {t : Tree} :
    Front.EntryAt Front.Numeral c r (key, t) rest ↔ ∃ text kept,
      Front.EntryAt one c r (key, .str (String.ofList text)) rest ∧ numeral text = .ok kept ∧
        t = .num (String.ofList kept) := by
  constructor
  · intro h
    cases h with
    | mk read colon value =>
        obtain ⟨text, kept, quoted, number, same⟩ := value
        exact ⟨text, kept, .mk read colon (texts.mpr quoted), number, same⟩
  · intro h
    obtain ⟨text, kept, h, number, rfl⟩ := h
    generalize pair : (key, Tree.str (String.ofList text)) = e at h
    cases h with
    | mk read colon value =>
        obtain ⟨rfl, rfl⟩ := Prod.mk.inj pair
        exact .mk read colon ⟨text, kept, texts.mp value, number, rfl⟩

/-- The entry of a number is the only one between its braces. -/
theorem front_of_numberEntry {s rest : List Char} {t : Tree} (h : Gives (numberEntry s) t rest) :
    ∃ key mid, Front.Led (Front.EntryAt Front.Numeral) s (key, t) mid ∧ Leads mid '\x7d' rest := by
  obtain ⟨short, h⟩ := h
  rw [numberEntry] at h
  split at h
  rename_i left within skip
  obtain ⟨only, read, h⟩ := bind_eq_ok_iff.mp h
  have member := front_of_entry numeral_of_numberText ⟨only.rest_lt, read⟩
  split at h
  · cases h
  rename_i d r shorter skip'
  split at h
  · rename_i close
    cases h
    refine ⟨only.value.1, only.rest, ?_, close ▸ leads_of_skipSpace (by rw [skip'])⟩
    cases left with
    | nil => cases read
    | cons c left => exact (Front.skips_led _ (leads_of_skipSpace (by rw [skip]))).mpr member
  · split at h <;> cases h

theorem front_of_mapping {item : Reader Tree} {one : Front Tree} (sound : Front.Sound item one)
    (texts : Front.Texts one) {s rest : List Char} {t : Tree} (h : Gives (mapping item s) t rest) :
    ∃ es, Front.Listed '\x7d' (Front.Led (Front.EntryAt one)) s es rest ∧ Front.Denotes es t := by
  obtain ⟨short, h⟩ := h
  rw [mapping] at h
  split at h
  · rename_i opens
    obtain ⟨key, mid, ⟨c, r, lead, entry⟩, close⟩ := front_of_numberEntry ⟨short, h⟩
    obtain ⟨text, kept, quoted, number, rfl⟩ := (entryAt_numeral_iff texts).mp entry
    have listed : Front.Listed '\x7d' (Front.Led (Front.EntryAt one)) s
        [(key, .str (String.ofList text))] rest := .first ⟨c, r, lead, quoted⟩ (.close close)
    obtain ⟨e, first, same⟩ := (opensNumber_of_listed listed).mp opens
    obtain rfl := Option.some.inj first
    obtain rfl : key = numberKey := same
    exact ⟨_, listed, .number number⟩
  · rename_i ordinary
    obtain ⟨body, read, h⟩ := bind_eq_ok_iff.mp h
    cases h
    have listed := front_of_entries sound ⟨body.rest_lt, read⟩
    refine ⟨_, listed, .mapping fun e first number => ordinary ?_⟩
    exact (opensNumber_of_listed listed).mpr ⟨e, first, number⟩

theorem front_of_valueWith {inner : Option (Reader Tree)} {one : Option (Front Tree)}
    (sound : ∀ item ∈ inner, ∃ o, one = some o ∧ Front.Skips o ∧ Front.Texts o ∧ Front.Sound item o)
    {s rest : List Char} {t : Tree} (h : Gives (valueWith inner s) t rest) :
    Front.Led (Front.ValueAt one) s t rest := by
  obtain ⟨short, h⟩ := h
  rw [valueWith] at h
  split at h
  · cases h
  rename_i c r within skip
  refine ⟨c, r, leads_of_skipSpace (by rw [skip]), ?_⟩
  split at h
  · rename_i same
    split at h
    · cases h
    · rename_i item
      obtain ⟨o, level, skips, -, sound⟩ := sound item rfl
      obtain ⟨body, read, h⟩ := bind_eq_ok_iff.mp h
      cases h
      exact same ▸ .list level (front_of_items sound skips ⟨body.rest_lt, read⟩)
  split at h
  · rename_i same
    split at h
    · cases h
    · rename_i item
      obtain ⟨o, level, -, texts, sound⟩ := sound item rfl
      obtain ⟨body, read, h⟩ := bind_eq_ok_iff.mp h
      cases h
      obtain ⟨es, listed, denotes⟩ := front_of_mapping sound texts ⟨body.rest_lt, read⟩
      exact same ▸ .mapping level listed denotes
  · obtain ⟨leaf, read, h⟩ := bind_eq_ok_iff.mp h
    cases h
    exact .scalar (scalarAt_of_scalar ⟨leaf.rest_lt, read⟩)

theorem sound_value (levels : Nat) : Front.Sound (value levels) (Front.Value levels) := by
  induction levels with
  | zero => exact fun s rest t => front_of_valueWith fun item none => by cases none
  | succ levels ih =>
      refine fun s rest t => front_of_valueWith fun item level => ?_
      obtain rfl := Option.some.inj level
      exact ⟨_, rfl, Front.skips_value levels, Front.texts_value levels, ih⟩

/-! ### What is related is what the readers take -/

section
variable {item : Reader Tree} {one : Front Tree}

theorem gives_moreItems_of_more (complete : Front.Complete item one)
    (opens : Front.Opens one)
    {s rest : List Char} {ts : List Tree} (h : Front.More ']' one s ts rest) :
    Gives (moreItems item s) ts rest := by
  induction h with
  | close lead =>
      obtain ⟨sp, spaces, -, rfl⟩ := lead
      exact gives_moreItems_close spaces _
  | comma lead member more ih =>
      obtain ⟨sp, spaces, -, rfl⟩ := lead
      obtain ⟨c, t, ⟨sp', spaces', visible, rfl⟩, open_⟩ := opens member
      exact gives_moreItems_comma spaces spaces' visible open_ (complete member) ih

theorem gives_items_of_listed (complete : Front.Complete item one)
    (opens : Front.Opens one) (skips : Front.Skips one)
    {s rest : List Char} {ts : List Tree} (h : Front.Listed ']' one s ts rest) :
    Gives (items item s) ts rest := by
  cases h with
  | empty lead =>
      obtain ⟨sp, spaces, -, rfl⟩ := lead
      exact gives_items_close spaces _
  | first member more =>
      obtain ⟨c, t, lead, open_⟩ := opens member
      have alone := complete ((skips lead).mp member)
      obtain ⟨sp, spaces, visible, rfl⟩ := lead
      have items := gives_moreItems_of_more complete opens more
      exact gives_items_first spaces visible open_ alone items

theorem gives_entry_of_led (complete : Front.Complete item one)
    {s rest : List Char} {e : String × Tree} (h : Front.Led (Front.EntryAt one) s e rest) :
    ∃ r, Leads s '"' r ∧ Gives (entry item ('"' :: r)) e rest := by
  obtain ⟨c, r, lead, entry⟩ := h
  cases entry with
  | mk read colon value =>
      obtain ⟨sp, spaces, -, rfl⟩ := colon
      exact ⟨r, lead, gives_entry_of_key spaces read (complete value)⟩

theorem gives_moreEntries_of_more (complete : Front.Complete item one)
    {s rest : List Char} {es : List (String × Tree)}
    (h : Front.More '\x7d' (Front.Led (Front.EntryAt one)) s es rest) :
    Gives (moreEntries item s) es rest := by
  induction h with
  | close lead =>
      obtain ⟨sp, spaces, -, rfl⟩ := lead
      exact gives_moreEntries_close spaces _
  | comma lead member more ih =>
      obtain ⟨sp, spaces, -, rfl⟩ := lead
      obtain ⟨t, ⟨sp', spaces', -, rfl⟩, read⟩ := gives_entry_of_led complete member
      exact gives_moreEntries_comma spaces spaces' read ih

theorem gives_entries_of_listed (complete : Front.Complete item one)
    {s rest : List Char} {es : List (String × Tree)}
    (h : Front.Listed '\x7d' (Front.Led (Front.EntryAt one)) s es rest) :
    Gives (entries item s) es rest := by
  cases h with
  | empty lead =>
      obtain ⟨sp, spaces, -, rfl⟩ := lead
      exact gives_entries_close spaces _
  | first member more =>
      obtain ⟨t, ⟨sp, spaces, -, rfl⟩, read⟩ := gives_entry_of_led complete member
      exact gives_entries_first spaces read (gives_moreEntries_of_more complete more)

end

theorem numberText_of_numeral : Front.Complete numberText Front.Numeral := by
  intro s rest t h
  obtain ⟨body, kept, ⟨r, ⟨sp, spaces, visible, rfl⟩, read⟩, number, rfl⟩ := h
  obtain ⟨_, skip⟩ := skipSpace_append spaces visible r
  obtain ⟨shorter, leaf⟩ := scalar_string read
  have short : rest.length < (sp ++ '"' :: r).length :=
    length_lt_append_cons (Nat.le_of_lt_succ shorter) sp '"'
  refine ⟨short, ?_⟩
  unfold numberText
  simp only [skip]
  show (scalar ('"' :: r) >>= _) = _
  rw [leaf]
  show (numeral (String.ofList body).toList >>= _) = _
  rw [String.toList_ofList, number]
  rfl

theorem numberEntry_of_led {s mid rest : List Char} {key : String} {t : Tree}
    (h : Front.Led (Front.EntryAt Front.Numeral) s (key, t) mid) (close : Leads mid '\x7d' rest) :
    Gives (numberEntry s) t rest := by
  obtain ⟨r, ⟨sp, spaces, visible, rfl⟩, short, read⟩ := gives_entry_of_led numberText_of_numeral h
  obtain ⟨_, skip⟩ := skipSpace_append spaces visible r
  obtain ⟨sp', spaces', visible', rfl⟩ := close
  obtain ⟨_, skip'⟩ := skipSpace_append spaces' visible' rest
  have inside := length_lt_append_cons (Nat.le_refl rest.length) sp' '\x7d'
  have within : rest.length < (sp ++ '"' :: r).length :=
    length_lt_append_cons (Nat.le_of_lt_succ (Nat.lt_trans inside short)) sp '"'
  refine ⟨within, ?_⟩
  unfold numberEntry
  generalize skipSpace (sp ++ '"' :: r) = skipped at skip ⊢
  subst skip
  show (entry numberText ('"' :: r) >>= _) = _
  rw [read]
  simp only [bind, Except.bind, skip', if_true]

theorem gives_mapping_of_listed {item : Reader Tree} {one : Front Tree}
    (complete : Front.Complete item one) (texts : Front.Texts one) {s rest : List Char}
    {es : List (String × Tree)} {t : Tree}
    (h : Front.Listed '\x7d' (Front.Led (Front.EntryAt one)) s es rest)
    (denotes : Front.Denotes es t) : Gives (mapping item s) t rest := by
  cases denotes with
  | mapping other =>
      refine gives_mapping (Bool.eq_false_iff.mpr fun opens => ?_)
        (gives_entries_of_listed complete h)
      obtain ⟨e, first, number⟩ := (opensNumber_of_listed h).mp opens
      exact other e first number
  | @number text kept number =>
      have opens := (opensNumber_of_listed h).mpr ⟨_, rfl, rfl⟩
      cases h with
      | first member more =>
          cases more with
          | close close =>
              obtain ⟨c, r, lead, entry⟩ := member
              have entry := (entryAt_numeral_iff texts).mpr ⟨text, kept, entry, number, rfl⟩
              obtain ⟨short, read⟩ := numberEntry_of_led ⟨c, r, lead, entry⟩ close
              exact ⟨short, (if_pos opens).trans read⟩

theorem opens_value (levels : Nat) : Front.Opens (Front.Value levels) := by
  intro s rest t h
  have opens {inner : Option (Front Tree)} {c : Char} {r : List Char}
      (at_ : Front.ValueAt inner c r t rest) : c ≠ ']' := by
    rintro rfl
    cases at_ with
    | scalar scalar =>
        cases scalar with
        | word word => simp [words] at word
        | number start => exact absurd start (by decide)
  cases levels with
  | zero =>
      obtain ⟨c, r, lead, at_⟩ := h
      exact ⟨c, r, lead, opens at_⟩
  | succ levels =>
      obtain ⟨c, r, lead, at_⟩ := h
      exact ⟨c, r, lead, opens at_⟩

theorem gives_valueWith_of_led {inner : Option (Reader Tree)} {one : Option (Front Tree)}
    (complete : ∀ o ∈ one, ∃ item, inner = some item ∧ Front.Skips o ∧ Front.Texts o ∧
      Front.Opens o ∧ Front.Complete item o)
    {s rest : List Char} {t : Tree} (h : Front.Led (Front.ValueAt one) s t rest) :
    Gives (valueWith inner s) t rest := by
  obtain ⟨c, r, ⟨sp, spaces, -, rfl⟩, at_⟩ := h
  cases at_ with
  | scalar scalar =>
      cases scalar with
      | word word text =>
          rw [text]
          exact gives_word spaces word rest
      | number start read => exact gives_num spaces start read
      | string read => exact gives_str spaces read
  | list level members =>
      obtain ⟨item, rfl, skips, -, opens, complete⟩ := complete _ level
      exact gives_list spaces (gives_items_of_listed complete opens skips members)
  | mapping level members denotes =>
      obtain ⟨item, rfl, -, texts, -, complete⟩ := complete _ level
      exact gives_map spaces (gives_mapping_of_listed complete texts members denotes)

theorem complete_value (levels : Nat) : Front.Complete (value levels) (Front.Value levels) := by
  induction levels with
  | zero => exact fun s rest t => gives_valueWith_of_led fun o none => by cases none
  | succ levels ih =>
      refine fun s rest t => gives_valueWith_of_led fun o level => ?_
      obtain rfl := Option.some.inj level
      exact ⟨_, rfl, Front.skips_value levels, Front.texts_value levels, opens_value levels, ih⟩

/-- **A value is read off a text if and only if it stands at its front.** -/
theorem gives_value_iff {levels : Nat} {s rest : List Char} {t : Tree} :
    Gives (value levels s) t rest ↔ Front.Value levels s t rest :=
  ⟨fun h => sound_value levels h, fun h => complete_value levels h⟩

/-! ### Whole texts -/

/-- A text is a tree with white space around it. -/
theorem readTree_eq_ok_iff {text : List Char} {t : Tree} :
    readTree text = .ok t ↔ ∃ rest, Front.Value maxLevels text t rest ∧ AllSpace rest := by
  have space {s : List Char} : (skipSpace s).rest = [] ↔ AllSpace s := List.dropWhile_eq_nil_iff
  rw [readTree, bind_eq_ok_iff]
  constructor
  · intro h
    obtain ⟨top, read, h⟩ := h
    split at h
    · rename_i left
      exact ⟨top.rest, Except.ok.inj h ▸ gives_value_iff.mp ⟨top.rest_lt, read⟩, space.mp left⟩
    · cases h
  · intro h
    obtain ⟨rest, front, spaces⟩ := h
    obtain ⟨short, read⟩ := gives_value_iff.mpr front
    refine ⟨_, read, ?_⟩
    simp only [space.mpr spaces]

end ZkCommand.Json
