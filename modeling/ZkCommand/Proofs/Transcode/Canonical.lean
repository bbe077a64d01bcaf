import ZkCommand.Proofs.Command.Plain
import ZkCommand.Proofs.Reading.Labels
import ZkCommand.Proofs.Reading.Reread
import ZkCommand.Proofs.Transcode.Exact
import ZkCommand.Proofs.Transcode.UnknownKeys

/-!
# ZkCommand.Proofs.Transcode.Canonical

**Canonical commands are fixed points.** The text of a record in the tagged shape is read back as
its tree, the tree of its command has the form of the schema, and each part is read from it as it
was written. Only the expected hashes are not a part of the command: they are zero afterwards, as
they are in the simple variant in any case.
-/

namespace ZkCommand.Transcode

variable {config : Config} {t : Tree}

/-- The record of the tree of a command that has been read. -/
theorem record_readFrom_command {record : Record} (tagged : config.shape = .tagged)
    (h : Record.ReadFrom config t record) :
    Record.ReadFrom config (toTree record.command)
      ⟨record.name, record.command, ExpectedHashes.zero⟩ := by
  have again := h.feePayer
  have updates := h.accountUpdates
  rw [tagged] at again updates
  refine ⟨h.name, ?_, ?_, ?_, h.network, ?_⟩
  · rw [tagged]
    exact Entry.required_again rereads_feePayer again rfl
  · rw [tagged]
    exact Entry.required_again (rereads_list rereads_accountUpdate) updates rfl
  · exact Entry.required_again rereads_string h.memo rfl
  -- The tree of a command has no expected hashes, so that each of them is the default.
  · cases config.variant with
    | proper => exact ⟨⟨rfl, rfl⟩, ⟨rfl, rfl⟩, ⟨rfl, rfl⟩, ⟨rfl, rfl⟩⟩
    | simple => rfl

/-- The tree of a command that has been read is transcoded to the command itself, without
diagnostics. -/
theorem ofTree_command {out : Outcome} (tagged : config.shape = .tagged)
    (h : ofTree config t = .ok out) :
    ofTree config (toTree out.record.command)
      = .ok ⟨⟨out.record.name, out.record.command, .zero⟩, []⟩ := by
  obtain ⟨read, -⟩ := ofTree_eq_ok_iff.mp h
  refine ofTree_eq_ok_iff.mpr ⟨record_readFrom_command tagged read, ?_⟩
  exact (Reading.recognised_command config out.record.command Path.root).symm

/-- **Canonical commands are fixed points of transcoding.** When a record in the tagged shape is
written in either layout and read back, the value under its command's key is transcoded without
diagnostics to a record of the same name with the same command; in the simple variant the whole
record is the same. -/
theorem ofTree_canonical {out : Outcome} (tagged : config.shape = .tagged)
    (h : ofTree config t = .ok out) {text : String}
    (printed : text = (toTree out.record).compact ∨ text = (toTree out.record).pretty) :
    ∃ whole command again, Relaxed.readTree text = .ok whole ∧
      whole.get? "zkappCommand" = some command ∧
      ofTree config command = .ok again ∧ again.diagnostics = [] ∧
      again.record.command = out.record.command ∧ again.record.name = out.record.name ∧
      (config.variant = .simple → again.record = out.record) := by
  have read := readTree_of_printed out.record printed
  have again := ofTree_command tagged h
  refine ⟨_, toTree out.record.command, _, read, rfl, again, rfl, rfl, rfl, fun simple => ?_⟩
  have expected := (ofTree_eq_ok_iff.mp h).1.expected
  rw [simple] at expected
  have zero : out.record.expected = .zero := expected
  rw [← zero]

/-- The record of a document that gives a verification key, in compact text. -/
theorem ofTree_canonical_withVerificationKey :
    ∃ out, ofTree ⟨.tagged, .simple, "x"⟩ (withVerificationKey (.map [("data", .str "AAAA")]))
        = .ok out ∧
      ∃ whole command again, Relaxed.readTree (toTree out.record).compact = .ok whole ∧
        whole.get? "zkappCommand" = some command ∧
        ofTree ⟨.tagged, .simple, "x"⟩ command = .ok again ∧ again.diagnostics = [] ∧
        again.record = out.record := by
  have succeeds : (ofTree ⟨.tagged, .simple, "x"⟩
      (withVerificationKey (.map [("data", .str "AAAA")]))).isOk = true := by
    decide +kernel
  cases h : ofTree ⟨.tagged, .simple, "x"⟩ (withVerificationKey (.map [("data", .str "AAAA")])) with
  | error fault =>
      rw [h] at succeeds
      cases succeeds
  | ok out =>
      obtain ⟨whole, command, again, read, found, transcoded, silent, -, -, same⟩ :=
        ofTree_canonical rfl h (Or.inl rfl)
      exact ⟨out, rfl, whole, command, again, read, found, transcoded, silent, same rfl⟩

end ZkCommand.Transcode
