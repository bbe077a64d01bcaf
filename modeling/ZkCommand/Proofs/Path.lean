import ZkCommand.Path
import ZkCommand.Proofs.Decimal

/-!
# ZkCommand.Proofs.Path

**A path is known by its text.** The text of a path is a word and then one step after another, each
of which starts with a mark (`toList_display`). A key without marks ends where the next mark stands,
and an index at its closing bracket, so the steps are found one by one (`marked_inj`), and paths
with such keys have different texts (`display_inj`).
-/

namespace ZkCommand

open Text

/-- A key that is not empty, has no mark of a step in it and is not the text of the root, or an
index. -/
def Segment.Plain : Segment → Prop
  | .key name => name ≠ "" ∧ '.' ∉ name.toList ∧ '[' ∉ name.toList ∧ name ≠ "<root>"
  | .index _ => True

/-- Every key on a path is a plain one. -/
def Path.Plain (p : Path) : Prop := ∀ segment ∈ p.segments, segment.Plain

namespace Path

/-! ### The text of a path -/

/-- A character with which no step starts. -/
def isInner (c : Char) : Bool := !(c = '.' || c = '[')

/-- The text of a step behind another one. -/
def stepText (step : Segment) : List Char := (showStep step).toList

/-- What a path shows in front of the steps with a mark: its first key, if it starts with one. -/
def word : List Segment → List Char
  | [] => "<root>".toList
  | .key name :: _ => name.toList
  | .index _ :: _ => []

/-- The steps that a path shows with a mark. -/
def marked : List Segment → List Segment
  | [] => []
  | .key _ :: rest => rest
  | .index position :: rest => .index position :: rest

theorem stepText_key (name : String) : stepText (.key name) = '.' :: name.toList := by
  rw [stepText, showStep, String.toList_append]
  rfl

theorem stepText_index (position : Nat) :
    stepText (.index position) = '[' :: (Decimal.write position ++ [']']) := by
  rw [stepText, showStep, String.toList_append, String.toList_append, Decimal.toList_text]
  rfl

theorem toList_foldl (text : String) (steps : List Segment) :
    (steps.foldl (fun text step => text ++ showStep step) text).toList
      = text.toList ++ steps.flatMap stepText := by
  induction steps generalizing text with
  | nil => exact (List.append_nil _).symm
  | cons step steps ih =>
      rw [List.foldl_cons, ih, String.toList_append, List.flatMap_cons, List.append_assoc]
      rfl

/-- **The text of a path** is its word and its steps. -/
theorem toList_display (p : Path) :
    p.display.toList = word p.segments ++ (marked p.segments).flatMap stepText := by
  obtain ⟨segments⟩ := p
  cases segments with
  | nil => exact (List.append_nil _).symm
  | cons first rest =>
      rw [display, toList_foldl]
      cases first <;> rfl

/-! ### Steps come apart -/

theorem stops_steps (steps : List Segment) :
    (steps.flatMap stepText).head?.any isInner = false := by
  cases steps with
  | nil => rfl
  | cons step steps =>
      rw [List.flatMap_cons]
      cases step with
      | key name =>
          rw [stepText_key]
          rfl
      | index position =>
          rw [stepText_index]
          rfl

theorem isInner_of_plain {name : String} (plain : (Segment.key name).Plain) :
    ∀ c ∈ name.toList, isInner c = true := by
  intro c member
  obtain ⟨-, dot, bracket, -⟩ := plain
  have other : c ≠ '.' ∧ c ≠ '[' :=
    ⟨fun same => dot (same ▸ member), fun same => bracket (same ▸ member)⟩
  simp [isInner, other]

/-- **The first step of a text of steps** is known by it. -/
theorem stepText_append_inj {step step' : Segment} (plain : step.Plain) (plain' : step'.Plain)
    {s s' : List Char} (stops : s.head?.any isInner = false) (stops' : s'.head?.any isInner = false)
    (same : stepText step ++ s = stepText step' ++ s') : step = step' ∧ s = s' := by
  cases step with
  | key name =>
      cases step' with
      | key name' =>
          rw [stepText_key, stepText_key] at same
          obtain ⟨names, rest⟩ := append_inj_of_head (isInner_of_plain plain)
            (isInner_of_plain plain') stops stops' (List.cons.inj same).2
          exact ⟨congrArg _ (String.toList_inj.mp names), rest⟩
      | index position' =>
          rw [stepText_key, stepText_index] at same
          exact absurd (List.cons.inj same).1 (by decide)
  | index position =>
      cases step' with
      | key name' =>
          rw [stepText_index, stepText_key] at same
          exact absurd (List.cons.inj same).1 (by decide)
      | index position' =>
          rw [stepText_index, stepText_index, List.cons_append, List.cons_append, List.append_assoc,
            List.append_assoc] at same
          -- The closing bracket is no digit, so that the numerals end in front of it.
          obtain ⟨numerals, rest⟩ := append_inj_of_head (fun _ => Decimal.isDigit_of_mem_write)
            (fun _ => Decimal.isDigit_of_mem_write) rfl rfl (List.cons.inj same).2
          have positions := congrArg Decimal.read numerals
          rw [Decimal.read_write, Decimal.read_write] at positions
          exact ⟨congrArg _ positions, (List.cons.inj rest).2⟩

theorem stepText_ne_nil (step : Segment) : stepText step ≠ [] := by
  cases step with
  | key name =>
      rw [stepText_key]
      exact List.cons_ne_nil _ _
  | index position =>
      rw [stepText_index]
      exact List.cons_ne_nil _ _

/-- **Steps are known by their text.** -/
theorem steps_inj {steps steps' : List Segment} (plain : ∀ step ∈ steps, step.Plain)
    (plain' : ∀ step ∈ steps', step.Plain)
    (same : steps.flatMap stepText = steps'.flatMap stepText) : steps = steps' := by
  induction steps generalizing steps' with
  | nil =>
      cases steps' with
      | nil => rfl
      | cons step' steps' =>
          exact absurd (List.append_eq_nil_iff.mp same.symm).1 (stepText_ne_nil step')
  | cons step steps ih =>
      cases steps' with
      | nil => exact absurd (List.append_eq_nil_iff.mp same).1 (stepText_ne_nil step)
      | cons step' steps' =>
          obtain ⟨first, others⟩ := List.forall_mem_cons.mp plain
          obtain ⟨first', others'⟩ := List.forall_mem_cons.mp plain'
          rw [List.flatMap_cons, List.flatMap_cons] at same
          obtain ⟨rfl, rest⟩ :=
            stepText_append_inj first first' (stops_steps steps) (stops_steps steps') same
          rw [ih others others' rest]

/-! ### Paths come apart -/

theorem isInner_of_mem_word {segments : List Segment} (plain : ∀ step ∈ segments, step.Plain) :
    ∀ c ∈ word segments, isInner c = true := by
  cases segments with
  | nil => exact List.all_eq_true.mp (by decide)
  | cons first rest =>
      cases first with
      | key name => exact isInner_of_plain (plain _ List.mem_cons_self)
      | index position => exact fun c member => absurd member List.not_mem_nil

/-- What a path shows tells its first step: no plain key is empty or shown as the root is. -/
theorem marked_inj {segments segments' : List Segment} (plain : ∀ step ∈ segments, step.Plain)
    (plain' : ∀ step ∈ segments', step.Plain) (words : word segments = word segments')
    (steps : marked segments = marked segments') : segments = segments' := by
  have root : "<root>".toList ≠ [] := by decide
  have named {name : String} {rest : List Segment}
      (plain : ∀ step ∈ Segment.key name :: rest, step.Plain) :
      name.toList ≠ [] ∧ name.toList ≠ "<root>".toList := by
    obtain ⟨some, -, -, other⟩ := plain _ List.mem_cons_self
    exact ⟨mt String.toList_eq_nil_iff.mp some, mt String.toList_inj.mp other⟩
  rcases segments with _ | ⟨_ | position, rest⟩ <;> rcases segments' with _ | ⟨_ | position', rest'⟩
  · rfl
  · exact absurd words.symm (named plain').2
  · exact absurd words root
  · exact absurd words (named plain).2
  · obtain rfl := String.toList_inj.mp words
    exact congrArg _ steps
  · exact absurd words (named plain).1
  · exact absurd words.symm root
  · exact absurd words.symm (named plain').1
  · exact steps

theorem mem_of_mem_marked {segments : List Segment} {step : Segment} (h : step ∈ marked segments) :
    step ∈ segments := by
  rcases segments with _ | ⟨_ | position, rest⟩
  · exact h
  · exact List.mem_cons_of_mem _ h
  · exact h

/-- **Paths are known by their texts.** -/
theorem display_inj {p q : Path} (plain : p.Plain) (plain' : q.Plain) :
    p.display = q.display ↔ p = q := by
  refine ⟨fun same => ?_, fun same => congrArg display same⟩
  have texts := congrArg String.toList same
  rw [toList_display, toList_display] at texts
  obtain ⟨words, steps⟩ := append_inj_of_head (isInner_of_mem_word plain)
    (isInner_of_mem_word plain') (stops_steps _) (stops_steps _) texts
  have marked := steps_inj (fun step h => plain step (mem_of_mem_marked h))
    (fun step h => plain' step (mem_of_mem_marked h)) steps
  obtain ⟨segments⟩ := p
  exact congrArg Path.mk (marked_inj plain plain' words marked)

end Path

/-! ### Texts that start with a path -/

/-- A key of letters, or an index. -/
def Segment.isLettered : Segment → Bool
  | .key name => name ≠ "" && name.toList.all Char.isAlpha
  | .index _ => true

theorem Segment.plain_of_isLettered {segment : Segment} (h : segment.isLettered = true) :
    segment.Plain := by
  cases segment with
  | index position => trivial
  | key name =>
      obtain ⟨some, letters⟩ := (Bool.and_eq_true _ _).mp h
      have letters := List.all_eq_true.mp letters
      refine ⟨of_decide_eq_true some, fun dot => ?_, fun bracket => ?_, fun root => ?_⟩
      · cases letters _ dot
      · cases letters _ bracket
      · have mark : '<' ∈ name.toList := by
          rw [root]
          decide
        cases letters _ mark

/-- Every key on a path is made of letters. -/
def Path.Lettered (p : Path) : Prop := ∀ segment ∈ p.segments, segment.isLettered = true

namespace Path

theorem Lettered.plain {p : Path} (h : p.Lettered) : p.Plain :=
  fun segment member => Segment.plain_of_isLettered (h segment member)

theorem colon_notMem_stepText {step : Segment} (h : step.isLettered = true) :
    ':' ∉ stepText step := by
  cases step with
  | key name =>
      have letters := List.all_eq_true.mp ((Bool.and_eq_true _ _).mp h).2
      rw [stepText_key]
      intro colon
      rcases List.mem_cons.mp colon with dot | inside
      · exact absurd dot (by decide)
      · cases letters _ inside
  | index position =>
      rw [stepText_index]
      intro colon
      rcases List.mem_cons.mp colon with bracket | inside
      · exact absurd bracket (by decide)
      rcases List.mem_append.mp inside with digit | bracket
      · cases Decimal.isDigit_of_mem_write digit
      · exact absurd (List.mem_singleton.mp bracket) (by decide)

theorem colon_notMem_word {segments : List Segment}
    (h : ∀ step ∈ segments, step.isLettered = true) : ':' ∉ word segments := by
  cases segments with
  | nil => decide
  | cons first rest =>
      cases first with
      | key name =>
          have first := h _ List.mem_cons_self
          have letters := List.all_eq_true.mp ((Bool.and_eq_true _ _).mp first).2
          intro colon
          cases letters _ colon
      | index position => exact List.not_mem_nil

theorem colon_notMem_display {p : Path} (h : p.Lettered) : ':' ∉ p.display.toList := by
  rw [toList_display]
  intro colon
  rcases List.mem_append.mp colon with inWord | inSteps
  · exact colon_notMem_word h inWord
  · obtain ⟨step, member, inStep⟩ := List.mem_flatMap.mp inSteps
    exact colon_notMem_stepText (h step (mem_of_mem_marked member)) inStep

/-- **A text that goes on with a colon behind a path** is known to be about that path. A plain key
may have a colon in it, a key of letters has none. -/
theorem display_append_inj {p q : Path} (h : p.Lettered) (h' : q.Lettered) {s s' : List Char}
    (same : p.display.toList ++ ':' :: s = q.display.toList ++ ':' :: s') : p = q := by
  have other {p : Path} (h : p.Lettered) : ∀ c ∈ p.display.toList, decide (c ≠ ':') = true :=
    fun c member => decide_eq_true fun colon => colon_notMem_display h (colon ▸ member)
  obtain ⟨texts, -⟩ := append_inj_of_head (other h) (other h') rfl rfl same
  exact (display_inj h.plain h'.plain).mp (String.toList_inj.mp texts)

end Path

end ZkCommand
