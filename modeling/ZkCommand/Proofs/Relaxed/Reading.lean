import ZkCommand.Proofs.Json.Values
import ZkCommand.Proofs.Relaxed.Read

/-!
# ZkCommand.Proofs.Relaxed.Reading

**Relaxed notation is read as its grammar says.** A text of the grammar in which no mapping starts
with the key of a number is normalised to the JSON text of its syntax, and that is read as the tree
of its value. No such text can be read in two ways.
-/

namespace ZkCommand.Relaxed

open Grammar

/-- The text of a document is read as the tree of its value. -/
theorem readTree_source (d : Document) (fits : d.value.depth ≤ 127) (ordinary : d.value.Ordinary) :
    readTree (String.ofList d.source) = .ok d.value.tree := by
  have strict : strictText (String.ofList d.source).toList = .ok d.strict := by
    rw [strictText, String.toList_ofList, normalise_document]
    rfl
  have read := Json.readTree_strict d fits ordinary
  rw [readTree, strict]
  show (Json.readTree d.strict).mapError _ = _
  rw [read]
  rfl

/-- **The grammar is unambiguous**: all the syntax that a text has denotes the same tree. -/
theorem tree_eq_of_source_eq {d d' : Document} (fits : d.value.depth ≤ 127)
    (fits' : d'.value.depth ≤ 127) (ordinary : d.value.Ordinary) (ordinary' : d'.value.Ordinary)
    (same : d.source = d'.source) : d.value.tree = d'.value.tree := by
  have left := readTree_source d fits ordinary
  have right := readTree_source d' fits' ordinary'
  rw [same, right] at left
  exact (Except.ok.inj left).symm

/-- **Relaxed notation is read exactly.** A text that the grammar derives, with no more than 127
lists and mappings around one another and no mapping that starts with the key of a number, is read,
and as the tree that it denotes. Its numbers have all their digits, and a zero keeps its sign. -/
theorem readTree_exact {text : String} {d : Document} (derived : text.toList = d.source)
    (fits : d.value.depth ≤ 127) (ordinary : d.value.Ordinary) :
    readTree text = .ok d.value.tree := by
  have read := readTree_source d fits ordinary
  rwa [← derived, String.ofList_toList] at read

/-- One digit. -/
def digit (c : Char) (isDigit : c.isDigit = true) : Digits :=
  ⟨[c], List.cons_ne_nil c [], by simpa using isDigit⟩

/-- A document with a name and a quoted key, a repeated key, both kinds of quotes and comments,
a suffix, a zero with a sign and trailing commas. -/
def mixedDocument : Document where
  before := []
  value := .mapping
    (.more [] (.name ⟨'a', [], Or.inl rfl, by simp⟩) [] [.blank]
      (.string ⟨'\'', Or.inr rfl, [.apostrophe, .plain '"' (by decide) (by decide)]⟩) []
    (.more [.block ['n'] rfl] (.quoted ⟨'"', Or.inl rfl, [.plain 'b' (by decide) (by decide)]⟩)
      [.blank] []
      (.list
        (.more [] (.big ⟨true, digit '5' rfl, by decide⟩) []
        (.more [.blank] (.big ⟨true, digit '0' rfl, fun _ => rfl⟩) []
        (.more [.blank] .undefined []
        (.last [.blank]
          (.number ⟨⟨false, digit '1' rfl, by decide⟩, some (digit '5' rfl),
            some ⟨true, none, digit '3' rfl⟩⟩) [] (some [])))))) []
    (.last [.blank] (.name ⟨'a', [], Or.inl rfl, by simp⟩) [] [] (.bool true) [] (some [.blank]))))
  after := [.blank]
  lastLine := some ['z']
  oneLine := by decide

theorem readTree_mixedDocument :
    readTree "\x7ba: '\\'\"',/*n*/\"b\" :[-5n, -0n, undefined, 1.5E3,], a:true, \x7d //z"
      = .ok (.map [("a", .bool true),
          ("b", .list [.num "-5", .num "-0", .null, .num "1.5e+3"])]) := by
  have derived : ("\x7ba: '\\'\"',/*n*/\"b\" :[-5n, -0n, undefined, 1.5E3,], a:true, \x7d //z"
      : String).toList = mixedDocument.source := by
    decide
  have fits : mixedDocument.value.depth ≤ 127 := by decide
  have ordinary : mixedDocument.value.Ordinary := by
    have first : Key.text (.name ⟨'a', [], Or.inl rfl, by simp⟩) ≠ Json.numberKey := by decide
    exact ⟨first, trivial, ⟨trivial, trivial, trivial, trivial⟩, trivial⟩
  have denoted : mixedDocument.value.tree
      = .map [("a", .bool true), ("b", .list [.num "-5", .num "-0", .null, .num "1.5e+3"])] := by
    rfl
  rw [← denoted]
  exact readTree_exact derived fits ordinary

end ZkCommand.Relaxed
