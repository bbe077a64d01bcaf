import ZkCommand.Proofs.Reading.Record

/-!
# ZkCommand.Proofs.Transcode.Exact

**Transcoding is exact for its schema.** A document has a record if and only if it has the form of
the schema, and the record is then the one that the document holds, part by part.
-/

namespace ZkCommand.Transcode

variable {config : Config} {t : Tree} {record : Record}

/-- The walk through a document ends with the record that the document holds. -/
theorem outcome_walk_iff :
    (walk config t).outcome = .ok record ↔ Record.ReadFrom config t record := by
  rw [Reading.walk_document, Walk.outcome_bind_eq_ok_iff, ← Reading.reads_record]
  constructor
  · intro h
    obtain ⟨found, h, told⟩ := h
    obtain ⟨_, -, same⟩ := Walk.outcome_bind_eq_ok_iff.mp told
    obtain rfl : found = record := Except.ok.inj same
    exact (Reading.outcome_walk_eq_ok_iff _ _ _).mp h
  · intro h
    exact ⟨record, (Reading.outcome_walk_eq_ok_iff _ _ _).mpr h, rfl⟩

/-- The walk through a document notices what its reading notices, and last the number of its
updates. -/
theorem events_walk_of_ok (h : (walk config t).outcome = .ok record) :
    (walk config t).events = (Reading.document config).eventsOf Path.root t ++
      [.transcoded config.name config.variant record.command.accountUpdates.length] := by
  rw [Reading.walk_document] at h ⊢
  obtain ⟨found, hfound, told⟩ := Walk.outcome_bind_eq_ok_iff.mp h
  obtain ⟨_, -, same⟩ := Walk.outcome_bind_eq_ok_iff.mp told
  obtain rfl : found = record := Except.ok.inj same
  rw [Walk.events_bind_of_ok hfound, Reading.events_walk _ _ hfound]
  rfl

/-- The diagnostics of a document are the labels that are settled by a fallback. -/
theorem diagnostics_walk_of_ok (h : (walk config t).outcome = .ok record) :
    (walk config t).diagnostics = (Reading.document config).diagnosticsOf Path.root t := by
  rw [Walk.diagnostics, events_walk_of_ok h, List.filterMap_append, Reading.diagnosticsOf_eq]
  exact List.append_nil _

/-- What transcoding hands back, in terms of the document alone. -/
theorem ofTree_eq_ok_iff {out : Outcome} :
    ofTree config t = .ok out ↔
      Record.ReadFrom config t out.record ∧
        out.diagnostics = (Reading.document config).diagnosticsOf Path.root t := by
  rw [ofTree, ← outcome_walk_iff]
  cases hw : (walk config t).outcome with
  | error fault => exact iff_of_false (fun h => by cases h) fun h => by cases h.1
  | ok found =>
      have labels := diagnostics_walk_of_ok hw
      obtain ⟨given, diagnostics⟩ := out
      show (Except.ok (Outcome.mk found (walk config t).diagnostics) : Except Walk.Fault Outcome)
        = .ok ⟨given, diagnostics⟩ ↔ _
      rw [labels, Except.ok.injEq, Outcome.mk.injEq, Except.ok.injEq, eq_comm (a := diagnostics)]

theorem exists_outcome (config : Config) (t : Tree) (h : (ofTree config t).isOk = true) :
    ∃ out, ofTree config t = .ok out := by
  cases result : ofTree config t with
  | error fault =>
      rw [result] at h
      cases h
  | ok out => exact ⟨out, rfl⟩

/-- **Transcoding is exact.** It succeeds on the documents of the form of its schema and on no
others, and its record is the one whose every part is read from its own place. -/
theorem ofTree_exact (config : Config) (t : Tree) :
    ((∃ out, ofTree config t = .ok out) ↔ (Reading.document config).Conforms t) ∧
      ∀ record, (∃ out, ofTree config t = .ok out ∧ out.record = record) ↔
        Record.ReadFrom config t record := by
  have holds : ∀ record, (∃ out, ofTree config t = .ok out ∧ out.record = record) ↔
      Record.ReadFrom config t record := by
    intro record
    constructor
    · intro h
      obtain ⟨out, h, rfl⟩ := h
      exact (ofTree_eq_ok_iff.mp h).1
    · intro h
      exact ⟨⟨record, _⟩, ofTree_eq_ok_iff.mpr ⟨h, rfl⟩, rfl⟩
  refine ⟨?_, holds⟩
  rw [← Reading.exists_reads_iff_conforms, Reading.reads_record]
  constructor
  · intro h
    obtain ⟨out, h⟩ := h
    exact ⟨out.record, (holds _).mp ⟨out, h, rfl⟩⟩
  · intro h
    obtain ⟨record, h⟩ := h
    obtain ⟨out, hout, -⟩ := (holds record).mpr h
    exact ⟨out, hout⟩

end ZkCommand.Transcode
