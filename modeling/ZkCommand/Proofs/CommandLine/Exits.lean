import ZkCommand.CommandLine.Run
import ZkCommand.Proofs.Transcode.Diagnostics
import ZkCommand.Proofs.Witness.Exact
import ZkCommand.Proofs.Witness.Printed

/-!
# ZkCommand.Proofs.CommandLine.Exits

**Exit codes tell the outcome.** A run is a use of the program that succeeds or fails as a whole:
what it prints is known only when every step has succeeded, so a failure prints nothing. A
transcoding that succeeds exits with zero. A comparison that succeeds exits with zero if the two
sequences are the same, and with one if they are not.
-/

namespace ZkCommand.CommandLine

open Text

/-! ### Runs -/

section
variable {s : Surroundings} {args : List String} {invocation : Invocation}

theorem run_of_ok {result : Result} (asked : Invocation.read args = some invocation)
    (h : invocation.run s = .ok result) : run s args = result := by
  simp [run, asked, h]

theorem run_of_error {complaint : String} (asked : Invocation.read args = some invocation)
    (h : invocation.run s = .error complaint) : run s args = .failed complaint := by
  simp [run, asked, h]

/-- A use of the program that does not succeed fails the run. -/
theorem exists_failed (asked : Invocation.read args = some invocation)
    (h : ∀ result, invocation.run s ≠ .ok result) :
    ∃ complaint, run s args = .failed complaint := by
  cases outcome : invocation.run s with
  | ok result => exact absurd outcome (h result)
  | error complaint => exact ⟨complaint, run_of_error asked outcome⟩

end

theorem content_eq_ok_iff {s : Surroundings} {file text : String} :
    content s file = .ok text ↔ s.file? file = some text := by
  rw [content]
  cases s.file? file <;> simp

/-! ### Transcodings -/

section
variable {s : Surroundings} {request : TranscodeRequest} {config : Config}

/-- The file of a request is there and has an outcome. -/
def Transcodes (s : Surroundings) (request : TranscodeRequest) (config : Config)
    (out : Transcode.Outcome) : Prop :=
  ∃ text, s.file? request.file = some text ∧ Transcode.ofText config text = .ok out

/-- There is no more than one outcome. -/
theorem Transcodes.iff_eq {out other : Transcode.Outcome} (h : Transcodes s request config out) :
    Transcodes s request config other ↔ other = out := by
  constructor
  · intro h'
    obtain ⟨text, file, read⟩ := h
    obtain ⟨text', file', read'⟩ := h'
    obtain rfl := Option.some.inj (file.symm.trans file')
    exact Except.ok.inj (read'.symm.trans read)
  · intro same
    exact same ▸ h

/-- What a transcoding leaves that has an outcome. -/
def transcoded (request : TranscodeRequest) (out : Transcode.Outcome) : Result where
  exit := 0
  output := request.format.write out.record ++ "\n"
  fingerprint := if request.fingerprint then some out.record.fingerprint else none
  complaint := none

theorem runTranscode_eq_ok_iff (valid : configure s.settings request = .ok config)
    {result : Result} :
    runTranscode s request = .ok result ↔
      ∃ out, Transcodes s request config out ∧ result = transcoded request out := by
  simp only [runTranscode, valid, bind_eq_ok_iff, mapError_eq_ok_iff, content_eq_ok_iff,
    Except.ok.injEq, exists_eq_left']
  constructor
  · intro h
    obtain ⟨text, file, out, read, rfl⟩ := h
    exact ⟨out, ⟨text, file, read⟩, rfl⟩
  · intro h
    obtain ⟨out, ⟨text, file, read⟩, rfl⟩ := h
    exact ⟨text, file, out, read, rfl⟩

end

/-! ### Comparisons -/

section
variable {s : Surroundings} {w r witness reference : String}

/-- A dump and a reference both denote sequences. -/
def Compares (witness reference : String) (decoded expected : List Witness.Primitive) : Prop :=
  Witness.decode witness = .ok decoded ∧
    ∃ t, Relaxed.readTree reference = .ok t ∧ Witness.ofReference t = .ok expected

/-- Each text denotes no more than one sequence. -/
theorem Compares.iff_eq {ps qs ps' qs' : List Witness.Primitive}
    (h : Compares witness reference ps qs) :
    Compares witness reference ps' qs' ↔ ps' = ps ∧ qs' = qs := by
  constructor
  · intro h'
    obtain ⟨dump, t, read, pairs⟩ := h
    obtain ⟨dump', t', read', pairs'⟩ := h'
    obtain rfl := Except.ok.inj (read.symm.trans read')
    exact ⟨Except.ok.inj (dump'.symm.trans dump), Except.ok.inj (pairs'.symm.trans pairs)⟩
  · intro same
    obtain ⟨rfl, rfl⟩ := same
    exact h

/-- What a comparison of two sequences leaves. -/
def compared (decoded expected : List Witness.Primitive) : Result where
  exit := if decoded = expected then 0 else 1
  output := (Witness.compare decoded expected).display ++ "\n"
  fingerprint := none
  complaint := none

theorem runCompare_eq_ok_iff (hw : s.file? w = some witness) (hr : s.file? r = some reference)
    {result : Result} :
    runCompare s w r = .ok result ↔
      ∃ decoded expected, Compares witness reference decoded expected ∧
        result = compared decoded expected := by
  have verdict (decoded expected : List Witness.Primitive) :
      (if (Witness.compare decoded expected).isMatch then 0 else 1)
        = if decoded = expected then 0 else 1 := by
    simp only [Witness.isMatch_compare_iff]
  simp only [runCompare, bind_eq_ok_iff, mapError_eq_ok_iff, content_eq_ok_iff, hw, hr, verdict,
    Option.some.injEq, Except.ok.injEq, exists_eq_left']
  constructor
  · intro h
    obtain ⟨decoded, dump, t, read, expected, pairs, rfl⟩ := h
    exact ⟨decoded, expected, ⟨dump, t, read, pairs⟩, rfl⟩
  · intro h
    obtain ⟨decoded, expected, ⟨dump, t, read, pairs⟩, rfl⟩ := h
    exact ⟨decoded, dump, t, read, expected, pairs, rfl⟩

end

/-! ### Exit codes -/

section
variable {s : Surroundings} {args : List String}

/-- A transcoding succeeds with its outcome, or fails where there is none. -/
theorem run_transcode {request : TranscodeRequest} {config : Config}
    (asked : Invocation.read args = some (.transcode request))
    (valid : configure s.settings request = .ok config) :
    (∃ out, Transcodes s request config out ∧ run s args = transcoded request out) ∨
      (∀ out, ¬ Transcodes s request config out) ∧
        ∃ complaint, run s args = .failed complaint := by
  -- Every step fails a run alike, so there are no more cases than success and failure.
  by_cases succeeds : ∃ out, Transcodes s request config out
  · obtain ⟨out, h⟩ := succeeds
    exact .inl ⟨out, h, run_of_ok asked ((runTranscode_eq_ok_iff valid).mpr ⟨out, h, rfl⟩)⟩
  · refine .inr ⟨not_exists.mp succeeds, exists_failed asked fun result ok => succeeds ?_⟩
    obtain ⟨out, h, -⟩ := (runTranscode_eq_ok_iff valid).mp ok
    exact ⟨out, h⟩

/-- A comparison succeeds with its verdict, or fails where a text denotes no sequence. -/
theorem run_compare {w r witness reference : String}
    (asked : Invocation.read args = some (.compare w r)) (hw : s.file? w = some witness)
    (hr : s.file? r = some reference) :
    (∃ ps qs, Compares witness reference ps qs ∧ run s args = compared ps qs) ∨
      (∀ ps qs, ¬ Compares witness reference ps qs) ∧
        ∃ complaint, run s args = .failed complaint := by
  by_cases succeeds : ∃ ps qs, Compares witness reference ps qs
  · obtain ⟨ps, qs, h⟩ := succeeds
    exact .inl ⟨ps, qs, h, run_of_ok asked ((runCompare_eq_ok_iff hw hr).mpr ⟨ps, qs, h, rfl⟩)⟩
  · refine .inr ⟨fun ps qs h => succeeds ⟨ps, qs, h⟩,
      exists_failed asked fun result ok => succeeds ?_⟩
    obtain ⟨ps, qs, h, -⟩ := (runCompare_eq_ok_iff hw hr).mp ok
    exact ⟨ps, qs, h⟩

/-- **Exit codes tell the outcome.** A comparison of two files that can be read exits with zero if
and only if both denote sequences and these are the same, with one if and only if they are not, and
with two, printing nothing, in every other case. A transcoding with a valid configuration exits with
zero if and only if its file has an outcome, whose record it prints as a struct literal or as
indented JSON with a line break, and with two, printing nothing, in every other case. -/
theorem run_exit (s : Surroundings) (args : List String) :
    (∀ w r witness reference, Invocation.read args = some (.compare w r) →
      s.file? w = some witness → s.file? r = some reference →
        ((run s args).exit = 0 ↔ ∃ ps, Compares witness reference ps ps) ∧
        ((run s args).exit = 1 ↔ ∃ ps qs, Compares witness reference ps qs ∧ ps ≠ qs) ∧
        ((run s args).exit = 2 ∧ (run s args).output = "" ↔
          ∀ ps qs, ¬ Compares witness reference ps qs)) ∧
    (∀ request config, Invocation.read args = some (.transcode request) →
      configure s.settings request = .ok config →
        ((run s args).exit = 0 ↔ ∃ out, Transcodes s request config out) ∧
        (∀ out, Transcodes s request config out →
          (run s args).output =
            (match request.format with
              | .literal => out.record.literal
              | .json => (toTree out.record).pretty) ++ "\n") ∧
        ((run s args).exit = 2 ∧ (run s args).output = "" ↔
          ∀ out, ¬ Transcodes s request config out)) := by
  constructor
  · intro w r witness reference asked hw hr
    rcases run_compare asked hw hr with ⟨ps, qs, h, result⟩ | ⟨none, _, failed⟩
    · simp only [result, compared, h.iff_eq]
      by_cases same : ps = qs <;> simp [same]
    · simp [none, failed, Result.failed]
  · intro request config asked valid
    have rendered (record : Record) : request.format.write record =
        match request.format with
          | .literal => record.literal
          | .json => (toTree record).pretty := by
      cases request.format <;> rfl
    rcases run_transcode asked valid with ⟨out, h, result⟩ | ⟨none, _, failed⟩
    · simp [result, transcoded, rendered, h.iff_eq]
    · simp [none, failed, Result.failed]

end

/-! ### A few files -/

/-- The text of a document without updates is read back. -/
theorem plain_withoutUpdates : (Transcode.withUpdates []).Plain 127 := by
  have fee : Tree.Plain 124 (.num "1") := by
    have one := @Tree.Plain.numeral 124 1
    rwa [show Decimal.text 1 = "1" by decide +kernel] at one
  have nonce : Tree.Plain 124 (.num "0") := by
    have zero := @Tree.Plain.numeral 124 0
    rwa [show Decimal.text 0 = "0" by decide +kernel] at zero
  have body : Tree.Plain 125
      (.map [("publicKey", .str "payer"), ("fee", .num "1"), ("nonce", .num "0")]) :=
    .map (by decide) (by simpa using ⟨.str _, fee, nonce⟩)
  have feePayer : Tree.Plain 126 (.map [("body", .map [("publicKey", .str "payer"),
      ("fee", .num "1"), ("nonce", .num "0")]), ("authorization", .str "")]) :=
    .map (by decide) (by simpa using ⟨body, .str _⟩)
  exact .map (by decide) (by simpa using ⟨feePayer, .list (by simp), .str _⟩)

/-- The JSON text of the record of a document without updates. -/
def textWithoutUpdates : String :=
  "\n".intercalate [
    "\x7b",
    "  \"name\": \"complex_zkapp_command\",",
    "  \"zkappCommand\": \x7b",
    "    \"feePayer\": \x7b",
    "      \"body\": \x7b",
    "        \"publicKey\": \"payer\",",
    "        \"fee\": 1,",
    "        \"validUntil\": null,",
    "        \"nonce\": 0",
    "      \x7d,",
    "      \"authorization\": \"\"",
    "    \x7d,",
    "    \"accountUpdates\": [],",
    "    \"memo\": \"\",",
    "    \"network\": \"mainnet\"",
    "  \x7d,",
    "  \"expected\": \x7b",
    "    \"memoHash\": \"0\",",
    "    \"feePayerHash\": \"0\",",
    "    \"accountUpdatesCommitment\": \"0\",",
    "    \"fullCommitment\": \"0\"",
    "  \x7d",
    "\x7d"]

/-- A document without updates has an outcome. -/
theorem ofText_withoutUpdates :
    ∃ out, Transcode.ofText ⟨.tagged, .simple, Config.defaultName⟩
        (Transcode.withUpdates []).compact = .ok out ∧
      (toTree out.record).pretty = textWithoutUpdates := by
  obtain ⟨out, h⟩ := Transcode.exists_outcome ⟨.tagged, .simple, Config.defaultName⟩
    (Transcode.withUpdates []) (by decide +kernel)
  have printed : ((Transcode.ofTree ⟨.tagged, .simple, Config.defaultName⟩
      (Transcode.withUpdates [])).toOption.map fun out => (toTree out.record).pretty)
        = some textWithoutUpdates := by
    decide +kernel
  rw [h] at printed
  refine ⟨out, bind_eq_ok_iff.mpr ⟨Transcode.withUpdates [], ?_, mapError_eq_ok_iff.mpr h⟩,
    Option.some.inj printed⟩
  exact mapError_eq_ok_iff.mpr (readTree_compact plain_withoutUpdates)

/-- A reference to the primitives of two tokens. -/
def twoPairs : List Witness.Written :=
  [⟨⟨1, 1⟩, by decide, .bare true, .bare false⟩,
    ⟨⟨258, 16⟩, by decide, .bare false, .bare true⟩]

/-- A dump of two tokens, a reference to their primitives, a reference to none, and a document. -/
def fewFiles : Surroundings where
  settings := ⟨none, none, none⟩
  file? name :=
    if name = "dump" then some (String.ofList Witness.twoTokens.source)
    else if name = "pairs" then some (Witness.referenceText twoPairs)
    else if name = "none" then some (Witness.referenceText [])
    else if name = "document" then some (Transcode.withUpdates []).compact
    else none

/-- What the dump and a reference denote. -/
theorem compares_twoTokens (ws : List Witness.Written) :
    Compares (String.ofList Witness.twoTokens.source) (Witness.referenceText ws)
      [⟨1, 1⟩, ⟨258, 16⟩] (ws.map Witness.Written.primitive) := by
  refine ⟨?_, Witness.ofReference_referenceText ws⟩
  rw [Witness.decode, String.toList_ofList, Witness.decodeFrom_source]
  decide

/-- A match, a mismatch, an outcome with its text, and a missing file. -/
theorem run_exit_fewFiles :
    (run fewFiles ["compare", "dump", "pairs"]).exit = 0 ∧
    (run fewFiles ["compare", "dump", "none"]).exit = 1 ∧
    (run fewFiles ["transcode", "document", "--format", "json"]).exit = 0 ∧
    (run fewFiles ["transcode", "document", "--format", "json"]).output
      = textWithoutUpdates ++ "\n" ∧
    (run fewFiles ["transcode", "--variant=Simple", "absent"]).exit = 2 := by
  have dump : fewFiles.file? "dump" = some (String.ofList Witness.twoTokens.source) := by
    simp [fewFiles]
  have pairs : fewFiles.file? "pairs" = some (Witness.referenceText twoPairs) := by
    simp [fewFiles]
  have none : fewFiles.file? "none" = some (Witness.referenceText []) := by simp [fewFiles]
  have document : fewFiles.file? "document" = some (Transcode.withUpdates []).compact := by
    simp [fewFiles]
  have absent : fewFiles.file? "absent" = .none := by simp [fewFiles]
  have transcodes := (run_exit fewFiles ["transcode", "document", "--format", "json"]).2
    ⟨"document", .none, .none, .none, .json, false⟩ ⟨.tagged, .simple, Config.defaultName⟩
    (by decide +kernel) (by decide)
  obtain ⟨out, read, printed⟩ := ofText_withoutUpdates
  refine ⟨?_, ?_, ?_, ?_, ?_⟩
  · have exits := (run_exit fewFiles ["compare", "dump", "pairs"]).1 "dump" "pairs" _ _
      (by decide +kernel) dump pairs
    exact exits.1.mpr ⟨_, compares_twoTokens twoPairs⟩
  · have exits := (run_exit fewFiles ["compare", "dump", "none"]).1 "dump" "none" _ _
      (by decide +kernel) dump none
    exact exits.2.1.mpr ⟨_, _, compares_twoTokens [], by decide⟩
  · exact transcodes.1.mpr ⟨out, _, document, read⟩
  · rw [transcodes.2.1 out ⟨_, document, read⟩]
    exact congrArg (· ++ "\n") printed
  · have exits := (run_exit fewFiles ["transcode", "--variant=Simple", "absent"]).2
      ⟨"absent", .none, some .simple, .none, .literal, false⟩
      ⟨.tagged, .simple, Config.defaultName⟩ (by decide +kernel) (by decide)
    refine (exits.2.2.mpr fun out h => ?_).1
    obtain ⟨text, file, -⟩ := h
    rw [absent] at file
    cases file

end ZkCommand.CommandLine
