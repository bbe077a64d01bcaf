import ZkCommand.Proofs.Reading.Shaped

/-!
# ZkCommand.Proofs.Transcode.Shapes

**The two shapes are two views of one transcoding.** The shape of a run has no influence on whether
a document has a record, on the failure of one that has none, or on what is noticed on the way. The
two records hold the same command, and nothing but a vacant payload stands beside a cleared flag.
-/

namespace ZkCommand.Transcode

theorem similar_walk (t : Tree) (variant : Variant) (name : String) :
    Walk.Similar Views (walk ⟨.flagged, variant, name⟩ t) (walk ⟨.tagged, variant, name⟩ t) := by
  rw [Reading.walk_document, Reading.walk_document]
  refine (Reading.similar_walk (Reading.similar_document variant name) _).bind ?_
  intro flagged plain views
  obtain ⟨hflagged, rfl⟩ := views
  -- Both walks end with a word on the number of updates, which no shape changes.
  have count : flagged.command.accountUpdates.length
      = (Shaped.tagged flagged).command.accountUpdates.length := (List.length_map _).symm
  rw [count]
  exact ⟨rfl, hflagged, rfl⟩

/-- **Two views of one transcoding.** With tags and with flags a document fails in the same way, or
has records with the same diagnostics, of which the one without flags is the other one with a value
for each set flag and nothing for each cleared one. -/
theorem ofTree_tagged_flagged (t : Tree) (variant : Variant) (name : String) :
    (∃ fault, ofTree ⟨.tagged, variant, name⟩ t = .error fault ∧
      ofTree ⟨.flagged, variant, name⟩ t = .error fault) ∨
    ∃ plain flagged, ofTree ⟨.tagged, variant, name⟩ t = .ok plain ∧
      ofTree ⟨.flagged, variant, name⟩ t = .ok flagged ∧
      plain.diagnostics = flagged.diagnostics ∧
      Shaped.tagged flagged.record = plain.record ∧ Shaped.Flagged flagged.record := by
  obtain ⟨events, ends⟩ := similar_walk t variant name
  have diagnostics : (walk ⟨.tagged, variant, name⟩ t).diagnostics
      = (walk ⟨.flagged, variant, name⟩ t).diagnostics := by
    rw [Walk.diagnostics, Walk.diagnostics, events]
  unfold ofTree
  cases hf : (walk ⟨.flagged, variant, name⟩ t).outcome with
  | error fault =>
      cases ht : (walk ⟨.tagged, variant, name⟩ t).outcome with
      | error fault' =>
          rw [hf, ht] at ends
          obtain rfl : fault = fault' := ends
          exact Or.inl ⟨fault, rfl, rfl⟩
      | ok plain =>
          rw [hf, ht] at ends
          exact ends.elim
  | ok flagged =>
      cases ht : (walk ⟨.tagged, variant, name⟩ t).outcome with
      | error fault' =>
          rw [hf, ht] at ends
          exact ends.elim
      | ok plain =>
          rw [hf, ht] at ends
          exact Or.inr ⟨_, _, rfl, rfl, diagnostics, ends.2, ends.1⟩

end ZkCommand.Transcode
