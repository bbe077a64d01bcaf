import ZkCommand.Literal.Record
import ZkCommand.Proofs.Literal.Brackets

/-!
# ZkCommand.Proofs.Literal.Lines

**Lines of a struct literal.** A line is indented by four spaces for each block that is open where
the line starts, and a line that closes a block stands where that block opens (`Lines`). This holds
of every layout whose lines are closed and whose blocks close what they open (`Layout.Sound`), and
the layout of a record is one. Values have no line breaks, so that the number of lines is that of
the layout (`Layout.height`), for which the values do not matter.
-/

namespace ZkCommand.Literal

/-! ### Indented lines -/

/-- The number of blocks that pending brackets close. What a parenthesis closes is no block. -/
def blocks (pending : List Char) : Nat := pending.countP (· ≠ ')')

/-- The level of a line by its first character. A line that closes a block is not inside it. -/
def levelOf (pending : List Char) (first : Char) : Nat :=
  if first = '\x7d' ∨ first = ']' then blocks pending - 1 else blocks pending

/-- A line starts behind a text. -/
def StartsLine (before : List Char) : Prop := before = [] ∨ before.getLast? = some '\n'

/-- Behind the first text a line starts, indented by its level. -/
def IndentedLine (pending before after : List Char) : Prop :=
  ∃ inner first rest, Scan.through ⟨.code, pending⟩ before = some ⟨.code, inner⟩ ∧
    after = List.replicate (4 * levelOf inner first) ' ' ++ first :: rest ∧
    first ≠ ' ' ∧ first ≠ '\n'

/-- A number of lines that lead from some pending brackets to others, each indented by its level. -/
structure Lines (pending : List Char) (count : Nat) (text pending' : List Char) : Prop where
  scans : Scan.through ⟨.code, pending⟩ text = some ⟨.code, pending'⟩
  breaks : text.count '\n' = count
  ends : StartsLine text
  indented : ∀ before after, text = before ++ after → StartsLine before → after ≠ [] →
    IndentedLine pending before after

theorem Lines.nil (pending : List Char) : Lines pending 0 [] pending :=
  ⟨rfl, rfl, .inl rfl, fun _ _ cut _ more =>
    absurd (List.append_eq_nil_iff.mp cut.symm).2 more⟩

theorem startsLine_of_append {text front : List Char} (h : StartsLine (text ++ front)) :
    StartsLine front := by
  cases front with
  | nil => exact .inl rfl
  | cons c front =>
      rcases h with nothing | last
      · simp at nothing
      · exact .inr (by simpa [List.getLast?_append] using last)

theorem startsLine_append {text text' : List Char} (h : StartsLine text) (h' : StartsLine text') :
    StartsLine (text ++ text') := by
  rcases h' with rfl | last
  · rwa [List.append_nil]
  · exact .inr (by rw [List.getLast?_append, last, Option.some_or])

/-- A cut behind a line break is in the first text, or in the second one or in front of it. -/
theorem Lines.append {pending pending' pending'' text text' : List Char} {count count' : Nat}
    (h : Lines pending count text pending') (h' : Lines pending' count' text' pending'') :
    Lines pending (count + count') (text ++ text') pending'' := by
  refine ⟨?_, ?_, startsLine_append h.ends h'.ends, fun before after cut starts more => ?_⟩
  · rw [Scan.through_append, h.scans, Option.bind_some, h'.scans]
  · rw [List.count_append, h.breaks, h'.breaks]
  · have second (front : List Char) (whole : text ++ front = before)
        (rest : text' = front ++ after) : IndentedLine pending before after := by
      have starts' := startsLine_of_append (whole.symm ▸ starts)
      obtain ⟨inner, first, others, scans, line⟩ := h'.indented front after rest starts' more
      refine ⟨inner, first, others, ?_, line⟩
      rw [← whole, Scan.through_append, h.scans, Option.bind_some, scans]
    rcases List.append_eq_append_iff.mp cut with ⟨front, whole, rest⟩ | ⟨behind, whole, rest⟩
    · exact second front whole.symm rest
    · cases behind with
      | nil => exact second [] (by rw [whole, List.append_nil, List.append_nil]) rest.symm
      | cons d behind =>
          obtain ⟨inner, first, others, scans, line, visible⟩ :=
            h.indented before (d :: behind) whole starts (List.cons_ne_nil _ _)
          refine ⟨inner, first, others ++ text', scans, ?_, visible⟩
          rw [rest, line, List.append_assoc, List.cons_append]

theorem through_spaces (pending : List Char) (count : Nat) :
    Scan.through ⟨.code, pending⟩ (List.replicate count ' ') = some ⟨.code, pending⟩ :=
  Scan.through_of_forall fun c hc => by
    obtain rfl := List.eq_of_mem_replicate hc
    rfl

/-- A single line ends at its only line break. -/
theorem lines_indented {pending pending' rest : List Char} {s : Scan} {text : String} {first : Char}
    {level : Nat} (leads : Leads ⟨.code, pending⟩ text s)
    (breaks : s.step '\n' = some ⟨.code, pending'⟩) (chars : text.toList = first :: rest)
    (visible : first ≠ ' ') (place : levelOf pending first = level) :
    Lines pending 1 (Layout.indented level text).toList pending' := by
  have line : (Layout.indented level text).toList
      = List.replicate (4 * level) ' ' ++ (text.toList ++ ['\n']) := by
    simp only [Layout.indented, String.toList_append, String.toList_ofList, List.append_assoc]
    rfl
  have oneLine : '\n' ∉ List.replicate (4 * level) ' ' ++ text.toList := by
    rw [List.mem_append, List.mem_replicate]
    exact not_or.mpr ⟨fun h => absurd h.2 (by decide), leads.oneLine⟩
  rw [line]
  refine ⟨?_, ?_, .inr (by simp), fun before after cut starts more => ?_⟩
  · rw [Scan.through_append, through_spaces, Option.bind_some, Scan.through_append, leads.scans,
      Option.bind_some, Scan.through_cons, breaks]
    rfl
  · rw [← List.append_assoc, List.count_append, List.count_eq_zero_of_not_mem oneLine]
    rfl
  · rcases starts with rfl | last
    · refine ⟨pending, first, rest ++ ['\n'], rfl, ?_, visible, ?_⟩
      · rw [← List.nil_append after, ← cut, place, chars]
        rfl
      · rintro rfl
        exact leads.oneLine (chars ▸ List.mem_cons_self)
    · -- The only line break is the last character, behind which nothing stands.
      obtain ⟨front, rfl⟩ := List.getLast?_eq_some_iff.mp last
      have inside := congrArg List.dropLast cut
      rw [← List.append_assoc, List.dropLast_concat, List.dropLast_append_of_ne_nil more] at inside
      refine absurd ?_ oneLine
      rw [inside]
      simp

/-! ### Sound layouts -/

/-- The first character is visible and closes no block. -/
def starts (text : String) : Bool :=
  text.toList.head?.any fun c => c ≠ ' ' && c ≠ '\x7d' && c ≠ ']'

/-- The first character closes a block. -/
def ends (text : String) : Bool := text.toList.head?.any fun c => c = '\x7d' || c = ']'

/-- Everything that a line opens is closed at its end. -/
structure IsLine (text : String) : Prop where
  visible : starts text = true
  closed : ∃ s, Leads .start text s ∧ s.step '\n' = some .start

/-- The second line closes what the first one opens, one block and possibly parentheses. -/
structure Encloses (pending : List Char) (opening closing : String) : Prop where
  one : blocks pending = 1
  visible : starts opening = true
  opens : Leads .start opening ⟨.code, pending⟩
  ends : ends closing = true
  closes : Leads ⟨.code, pending⟩ closing .start

namespace Layout

/-- Every line is closed, and every block closes what it opens. -/
inductive Sound : Layout → Prop
  | line {text : String} (h : IsLine text) : Sound (.line text)
  | block {pending : List Char} {opening closing : String} {body : List Layout}
      (h : Encloses pending opening closing) (inside : ∀ l ∈ body, Sound l) :
      Sound (.block opening body closing)

mutual

/-- The number of lines of a layout. -/
def height : Layout → Nat
  | .line _ => 1
  | .block _ body _ => heights body + 2

/-- The number of lines of layouts that follow one another. -/
def heights : List Layout → Nat
  | [] => 0
  | l :: rest => height l + heights rest

end

theorem exists_first {test : Char → Bool} {text : String}
    (h : text.toList.head?.any test = true) :
    ∃ first rest, text.toList = first :: rest ∧ test first = true := by
  cases chars : text.toList with
  | nil =>
      rw [chars] at h
      cases h
  | cons first rest =>
      rw [chars] at h
      exact ⟨first, rest, rfl, h⟩

theorem exists_first_of_starts {text : String} (h : starts text = true) :
    ∃ first rest, text.toList = first :: rest ∧ first ≠ ' ' ∧
      ∀ pending, levelOf pending first = blocks pending := by
  obtain ⟨first, rest, chars, test⟩ := exists_first h
  simp only [Bool.and_eq_true, decide_eq_true_iff] at test
  obtain ⟨⟨visible, brace⟩, bracket⟩ := test
  exact ⟨first, rest, chars, visible, fun _ => if_neg (not_or.mpr ⟨brace, bracket⟩)⟩

theorem exists_first_of_ends {text : String} (h : ends text = true) :
    ∃ first rest, text.toList = first :: rest ∧ first ≠ ' ' ∧
      ∀ pending, levelOf pending first = blocks pending - 1 := by
  obtain ⟨first, rest, chars, test⟩ := exists_first h
  simp only [Bool.or_eq_true, decide_eq_true_iff] at test
  refine ⟨first, rest, chars, ?_, fun _ => if_pos test⟩
  rcases test with rfl | rfl <;> decide

theorem lines_line {text : String} (h : IsLine text) (pending : List Char) :
    Lines pending 1 (indented (blocks pending) text).toList pending := by
  obtain ⟨s, leads, breaks⟩ := h.closed
  obtain ⟨first, rest, chars, visible, place⟩ := exists_first_of_starts h.visible
  exact lines_indented (leads.within pending) (Scan.step_within breaks pending) chars visible
    (place pending)

theorem lines_renderAll {ls : List Layout}
    (h : ∀ l ∈ ls, ∀ pending, Lines pending l.height (render (blocks pending) l).toList pending)
    (pending : List Char) :
    Lines pending (heights ls) (renderAll (blocks pending) ls).toList pending := by
  induction ls with
  | nil => exact .nil pending
  | cons l ls ih =>
      rw [heights, renderAll, String.toList_append]
      have others := ih fun l' hl' => h l' (List.mem_cons_of_mem l hl')
      exact (h l List.mem_cons_self pending).append others

/-- A layout leaves the brackets around it as they are, and its lines are indented one level for
each of them that belongs to a block. -/
theorem Sound.lines {l : Layout} (h : l.Sound) (pending : List Char) :
    Lines pending l.height (render (blocks pending) l).toList pending := by
  induction h generalizing pending with
  | line h => exact lines_line h pending
  | @block inner opening closing body h _ ih =>
      -- The body stands at the level of what the opening line leaves open.
      have level : blocks (inner ++ pending) = blocks pending + 1 := by
        rw [blocks, List.countP_append]
        exact (Nat.add_comm _ _).trans (congrArg _ h.one)
      obtain ⟨first, rest, chars, visible, place⟩ := exists_first_of_starts h.visible
      obtain ⟨first', rest', chars', visible', place'⟩ := exists_first_of_ends h.ends
      have top : Lines pending 1 (indented (blocks pending) opening).toList (inner ++ pending) :=
        lines_indented (h.opens.within pending) rfl chars visible (place pending)
      have bottom : Lines (inner ++ pending) 1 (indented (blocks pending) closing).toList pending :=
        lines_indented (h.closes.within pending) rfl chars' visible'
          (by rw [place', level, Nat.add_sub_cancel])
      have middle := lines_renderAll ih (inner ++ pending)
      rw [level] at middle
      have whole := (top.append middle).append bottom
      rw [height, render, String.toList_append, String.toList_append]
      rwa [show heights body + 2 = 1 + heights body + 1 by omega]

/-! ### Fields and structs -/

/-- A small letter or an underscore. -/
def isKeyChar (c : Char) : Bool := c.isLower || c = '_'

/-- A word of small letters and underscores. -/
def isKey (key : String) : Bool := !key.toList.isEmpty && key.toList.all isKeyChar

/-- A computation that two lines enclose a block. -/
def encloses (pending : List Char) (opening closing : String) : Bool :=
  decide (blocks pending = 1) && starts opening && leads .start opening ⟨.code, pending⟩
    && Literal.ends closing && leads ⟨.code, pending⟩ closing .start

theorem starts_append {text : String} (h : starts text = true) (text' : String) :
    starts (text ++ text') = true := by
  obtain ⟨first, rest, chars, test⟩ := exists_first h
  rw [starts, String.toList_append, chars]
  exact test

theorem encloses_of_check {pending : List Char} {opening closing : String}
    (h : encloses pending opening closing = true) : Encloses pending opening closing := by
  simp only [encloses, Bool.and_eq_true, decide_eq_true_iff] at h
  obtain ⟨⟨⟨⟨one, visible⟩, opens⟩, ends⟩, closes⟩ := h
  exact ⟨one, visible, .of_leads opens, ends, .of_leads closes⟩

theorem starts_of_isKey {key : String} (h : isKey key = true) : starts key = true := by
  rw [isKey, Bool.and_eq_true, Bool.not_eq_true', List.isEmpty_eq_false_iff,
    List.all_eq_true] at h
  obtain ⟨first, rest, chars⟩ := List.exists_cons_of_ne_nil h.1
  have letter : isKeyChar first = true := h.2 first (chars ▸ List.mem_cons_self)
  have other (c : Char) (apart : isKeyChar c = false) : first ≠ c :=
    ne_of_apply_ne isKeyChar (by rw [letter, apart]; decide)
  simp [starts, chars, other _ (rfl : isKeyChar ' ' = false),
    other _ (rfl : isKeyChar '\x7d' = false), other _ (rfl : isKeyChar ']' = false)]

theorem closed_of_isKey {key : String} (h : isKey key = true) : Closed key := by
  rw [isKey, Bool.and_eq_true, List.all_eq_true] at h
  refine .of_forall fun c hc => ⟨step_code (notMem_marks rfl (h.2 c hc)), ?_⟩
  rintro rfl
  exact absurd (h.2 _ hc) (by decide)

theorem isLine_of_closed {text : String} (visible : starts text = true) (h : Closed text) :
    IsLine text := ⟨visible, .start, h, rfl⟩

theorem sound_field_of_closed {key value : String} (check : isKey key = true) (h : Closed value) :
    (field key value).Sound := by
  refine .line (isLine_of_closed ?_ ?_)
  · rw [String.append_assoc, String.append_assoc]
    exact starts_append (starts_of_isKey check) _
  · exact (((closed_of_isKey check).append (.of_leads rfl)).append h).append (.of_leads rfl)

section
variable {α : Type} {write : α → String} [Closing write] {key : String} {a : α}

theorem sound_field (check : isKey key = true) : (field key (write a)).Sound :=
  sound_field_of_closed check (closed a)

/-- A field with an argument between parentheses. -/
theorem sound_field_between {first last : String} (check : isKey key = true)
    (opens : leads .start first ⟨.code, [')']⟩ = true)
    (closes : leads ⟨.code, [')']⟩ last .start = true) :
    (field key (first ++ write a ++ last)).Sound :=
  sound_field_of_closed check ((closed a).between [')'] opens closes)

end

theorem sound_field_word {key word : String} (check : isKey key = true)
    (h : leads .start word .start = true) : (field key word).Sound :=
  sound_field_of_closed check (.of_leads h)

theorem sound_structWith {pending : List Char} {head tail : String} {body : List Layout}
    (check : encloses pending (head ++ " \x7b") ("\x7d" ++ tail) = true)
    (inside : ∀ l ∈ body, l.Sound) : (structWith head body tail).Sound :=
  .block (encloses_of_check check) inside

theorem sound_struct_iff {head : String} {body : List Layout}
    (check : encloses ['\x7d'] (head ++ " \x7b") "\x7d," = true) :
    (struct head body).Sound ↔ ∀ l ∈ body, l.Sound := by
  refine ⟨fun h => ?_, sound_structWith check⟩
  cases h with
  | block _ inside => exact inside

theorem sound_vector {key : String} {items : List Layout}
    (check : encloses [']'] (key ++ ": vec![") "]," = true) (inside : ∀ l ∈ items, l.Sound) :
    (vector key items).Sound := .block (encloses_of_check check) inside

end Layout

open Layout

/-! ### Blocks that may be absent, and lists -/

/-- The three forms of a block that may be absent close what they open. -/
def isBlock (key type : String) : Bool :=
  isKey key && encloses ['\x7d', ')'] (key ++ ": Some(" ++ type ++ " \x7b") "\x7d),"
    && encloses ['\x7d'] (key ++ ": Flagged" ++ " \x7b") "\x7d,"
    && encloses ['\x7d'] ("value: " ++ type ++ " \x7b") "\x7d,"

/-- What is laid out inside a block is sound. -/
class SoundBody {α : Type} (body : α → List Layout) : Prop where
  sound : ∀ a, ∀ l ∈ body a, l.Sound

theorem sound_optionalBlock {α : Type} {key type : String} {body : α → List Layout}
    [inside : SoundBody body] (check : isBlock key type = true) (value : Optional α) :
    (optionalBlock key type body value).Sound := by
  simp only [isBlock, Bool.and_eq_true] at check
  obtain ⟨⟨⟨key, some⟩, flagged⟩, payload⟩ := check
  rcases value with (_ | value) | ⟨present, value⟩
  · exact sound_field_word key rfl
  · exact sound_structWith some (inside.sound value)
  · rw [optionalBlock, sound_struct_iff flagged, List.forall_mem_cons, List.forall_mem_singleton,
      sound_struct_iff payload]
    exact ⟨sound_field rfl, inside.sound value⟩

theorem sound_fieldLists {head : String}
    (check : encloses ['\x7d'] (head ++ " \x7b") "\x7d," = true) (lists : List (List Fp)) :
    (fieldLists head lists).Sound := by
  rw [fieldLists, sound_struct_iff check, List.forall_mem_singleton]
  split
  · exact sound_field_word rfl rfl
  · refine sound_vector rfl fun l hl => ?_
    obtain ⟨xs, -, rfl⟩ := List.mem_map.mp hl
    refine .line (isLine_of_closed ?_ ((closed_inlineVector xs).append (.of_leads rfl)))
    rw [inlineVector, String.append_assoc, String.append_assoc]
    exact starts_append rfl _

/-! ### Structures -/

attribute [local simp] sound_struct_iff sound_field sound_field_between sound_field_word
  sound_optionalBlock sound_fieldLists

instance : SoundBody verificationKey where
  sound k := by simp (disch := decide +kernel) [verificationKey]

instance : SoundBody permissions where
  sound p := by simp (disch := decide +kernel) [permissions]

instance : SoundBody timing where
  sound t := by simp (disch := decide +kernel) [timing]

theorem sound_update (u : Update) : (update u).Sound := by
  simp (disch := decide +kernel) [update]

theorem sound_epoch {key : String}
    (check : encloses ['\x7d'] (key ++ ": EpochData" ++ " \x7b") "\x7d," = true) (e : EpochData) :
    (epoch key e).Sound := by
  rw [epoch, sound_struct_iff check]
  simp (disch := decide +kernel)

theorem sound_networkPreconditions (n : NetworkPreconditions) :
    (networkPreconditions n).Sound := by
  simp (disch := decide +kernel) [networkPreconditions, sound_epoch]

theorem sound_accountPreconditions (a : AccountPreconditions) :
    (accountPreconditions a).Sound := by
  simp (disch := decide +kernel) [accountPreconditions]

theorem sound_preconditions (p : Preconditions) : (preconditions p).Sound := by
  simp (disch := decide +kernel) [preconditions, sound_networkPreconditions,
    sound_accountPreconditions]

theorem sound_accountUpdateBody (b : AccountUpdateBody) : (accountUpdateBody b).Sound := by
  simp (disch := decide +kernel) [accountUpdateBody, sound_update, sound_preconditions]

/-- A comment ends at the end of its line. -/
theorem isLine_comment (number : Nat) : IsLine ("// Account update " ++ Decimal.text number) := by
  have digits : Leads ⟨.comment, []⟩ (Decimal.text number) ⟨.comment, []⟩ := by
    refine .of_forall fun c hc => ?_
    rw [Decimal.toList_text] at hc
    have other : c ≠ '\n' := Text.ne_of_isDigit (Decimal.isDigit_of_mem_write hc) rfl
    exact ⟨by simp [Scan.step, other], other⟩
  exact ⟨starts_append rfl _, ⟨.comment, []⟩, .append (.of_leads rfl) digits, rfl⟩

theorem sound_accountUpdate (number : Nat) (u : AccountUpdate) :
    ∀ l ∈ accountUpdate number u, l.Sound := by
  have comment := Sound.line (isLine_comment number)
  simp (disch := decide +kernel) [accountUpdate, sound_accountUpdateBody, comment]

theorem sound_feePayer (p : FeePayer) : (feePayer p).Sound := by
  simp (disch := decide +kernel) [feePayer]

theorem sound_command (c : Command) : (command c).Sound := by
  have updates : (vector "account_updates"
      (c.accountUpdates.mapIdx fun i u => accountUpdate (i + 1) u).flatten).Sound := by
    refine sound_vector rfl fun l hl => ?_
    obtain ⟨layouts, inside, hl⟩ := List.mem_flatten.mp hl
    obtain ⟨i, short, rfl⟩ := List.mem_mapIdx.mp inside
    exact sound_accountUpdate _ _ l hl
  simp (disch := decide +kernel) [command, sound_feePayer, updates]

instance : Closing expectedHash :=
  ⟨fun x => (leads_numeral (s := ⟨.text, []⟩) (.inr rfl) x.val).between rfl rfl⟩

theorem sound_record (r : Record) : (record r).Sound := by
  refine sound_structWith (by decide +kernel : encloses ['\x7d'] _ _ = true) ?_
  simp (disch := decide +kernel) [sound_command]

/-! ### Numbers of lines -/

/-- The number of lines of a block that may be absent, by that of its payload. -/
def optionalLines {α : Type} (payload : Nat) : Optional α → Nat
  | .tagged none => 1
  | .tagged (some _) => payload + 2
  | .flagged _ _ => payload + 5

/-- The number of lines of lists of field elements. -/
def listLines (lists : List (List Fp)) : Nat := if lists.isEmpty then 3 else lists.length + 4

/-- The number of lines of an account update. -/
def accountUpdateLines (b : AccountUpdateBody) : Nat :=
  76 + optionalLines 2 b.update.verificationKey + optionalLines 16 b.update.permissions
    + optionalLines 5 b.update.timing + listLines b.events + listLines b.actions

/-- The number of lines of a record. -/
def recordLines (r : Record) : Nat :=
  22 + (r.command.accountUpdates.map fun u => accountUpdateLines u.body).sum

namespace Layout

theorem height_line (text : String) : (line text).height = 1 := rfl

theorem height_field (key value : String) : (field key value).height = 1 := rfl

theorem height_structWith (head tail : String) (body : List Layout) :
    (structWith head body tail).height = heights body + 2 := rfl

theorem height_struct (head : String) (body : List Layout) :
    (struct head body).height = heights body + 2 := rfl

theorem height_vector (key : String) (items : List Layout) :
    (vector key items).height = heights items + 2 := rfl

theorem heights_append (ls ls' : List Layout) :
    heights (ls ++ ls') = heights ls + heights ls' := by
  induction ls with
  | nil => exact (Nat.zero_add _).symm
  | cons l ls ih => rw [List.cons_append, heights, heights, ih, Nat.add_assoc]

end Layout

theorem height_optionalBlock {α : Type} {key type : String} {body : α → List Layout} {lines : Nat}
    (h : ∀ a, heights (body a) = lines) (value : Optional α) :
    (optionalBlock key type body value).height = optionalLines lines value := by
  rcases value with (_ | value) | ⟨present, payload⟩
  · rfl
  · rw [optionalBlock, height_structWith, h, optionalLines]
  · rw [optionalBlock, height_struct, heights, heights, heights, height_field, height_struct, h,
      optionalLines]
    omega

theorem height_fieldLists (head : String) (lists : List (List Fp)) :
    (fieldLists head lists).height = listLines lists := by
  have items (lists : List (List Fp)) :
      heights (lists.map fun xs => line (inlineVector (xs.map element) ++ ",")) = lists.length := by
    induction lists with
    | nil => rfl
    | cons xs lists ih =>
        rw [List.map_cons, heights, ih, height_line, List.length_cons, Nat.add_comm]
  cases lists with
  | nil => rfl
  | cons xs lists =>
      simp only [fieldLists, listLines, List.isEmpty_cons, Bool.false_eq_true, if_false,
        height_struct, height_vector, heights, items]

theorem height_update (u : Update) :
    (update u).height = 7 + optionalLines 2 u.verificationKey + optionalLines 16 u.permissions
      + optionalLines 5 u.timing := by
  have key (k : VerificationKey) : heights (verificationKey k) = 2 := rfl
  have levels (p : Permissions) : heights (permissions p) = 16 := rfl
  have schedule (t : Timing) : heights (timing t) = 5 := rfl
  simp only [update, height_struct, heights, height_field, height_optionalBlock key,
    height_optionalBlock levels, height_optionalBlock schedule]
  omega

theorem heights_accountUpdate (number : Nat) (u : AccountUpdate) :
    heights (accountUpdate number u) = accountUpdateLines u.body := by
  have conditions (p : Preconditions) : (preconditions p).height = 40 := rfl
  simp only [accountUpdate, accountUpdateBody, heights, height_line, height_struct, height_field,
    height_update, height_fieldLists, conditions, accountUpdateLines]
  omega

theorem heights_mapIdx {α : Type} {layouts : Nat → α → List Layout} {lines : α → Nat}
    (h : ∀ i a, heights (layouts i a) = lines a) (as : List α) :
    heights (as.mapIdx layouts).flatten = (as.map lines).sum := by
  induction as generalizing layouts with
  | nil => rfl
  | cons a as ih =>
      rw [List.mapIdx_cons, List.flatten_cons, heights_append, h, ih fun i => h (i + 1),
        List.map_cons, List.sum_cons]

theorem height_record (r : Record) : (record r).height = recordLines r := by
  have payer (p : FeePayer) : (feePayer p).height = 9 := rfl
  have updates := heights_mapIdx (fun i => heights_accountUpdate (i + 1)) r.command.accountUpdates
  simp only [record, command, height_structWith, height_struct, height_vector, heights,
    height_field, payer, updates, recordLines]
  omega

end ZkCommand.Literal
