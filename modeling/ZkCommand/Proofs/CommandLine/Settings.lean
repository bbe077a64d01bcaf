import ZkCommand.Proofs.CommandLine.Exits

/-!
# ZkCommand.Proofs.CommandLine.Settings

**Options shadow the environment.** An option stands for the setting of the environment that has
its name. A name that is given as an option hides any other. A variant or a shape that is given as
an option hides what the setting says, but not whether it says anything: the environment is resolved
before the options replace parts of it, so a setting without a meaning fails the run all the same.
-/

namespace ZkCommand.CommandLine

open Text

/-! ### What options hide -/

/-- A setting is not there, or has a meaning. -/
def legible {α : Type} (read : String → Except Config.Fault α) (setting : Option String) : Bool :=
  setting.all fun text => (read text).isOk

/-- A change of a setting is hidden: there is none, or an option replaces the setting, which has a
meaning after the change if and only if it has one before. -/
def Hidden {α : Type} (option : Option α) (read : String → Except Config.Fault α)
    (before after : Option String) : Prop :=
  before = after ∨ option.isSome = true ∧ legible read before = legible read after

/-- A request hides a change of the environment. -/
structure TranscodeRequest.Hides (request : TranscodeRequest) (before after : Config.Settings) :
    Prop where
  name : before.name = after.name ∨ request.name.isSome = true
  variant : Hidden request.variant Config.readVariant before.variant after.variant
  shape : Hidden request.shape Config.readShape before.shape after.shape

/-- Every setting that has to be read has a meaning. -/
def allLegible (settings : Config.Settings) : Bool :=
  legible Config.readVariant settings.variant && legible Config.readShape settings.shape

/-- What can be seen of a run: the exit code, the printed text and the fingerprint. -/
def Result.shown (result : Result) : Nat × String × Option String :=
  (result.exit, result.output, result.fingerprint)

/-! ### Configurations -/

/-- The value of an option, or else that of the setting, which is read first. -/
def chosen {α : Type} (option : Option α) (read : String → Except Config.Fault α) (default : α)
    (setting : Option String) : Option α :=
  (Config.override read default setting).toOption.map option.getD

section
variable {α : Type} {option : Option α} {read : String → Except Config.Fault α}

theorem isSome_chosen (default : α) (setting : Option String) :
    (chosen option read default setting).isSome = legible read setting := by
  cases setting with
  | none => rfl
  | some text => cases h : read text <;> simp [chosen, Config.override, legible, h, Except.isOk,
      Except.toBool, Except.toOption]

/-- Of a setting that an option replaces only its meaning to be there matters. -/
theorem chosen_some (value default : α) (setting : Option String) :
    chosen (some value) read default setting
      = if legible read setting then some value else none := by
  rw [← @isSome_chosen α (some value) read default setting, chosen]
  cases Config.override read default setting <;> rfl

theorem chosen_congr (default : α) {before after : Option String}
    (h : Hidden option read before after) :
    chosen option read default before = chosen option read default after := by
  rcases h with rfl | ⟨given, same⟩
  · rfl
  · obtain ⟨value, rfl⟩ := Option.isSome_iff_exists.mp given
    rw [chosen_some, chosen_some, same]

end

/-- The name of a run. -/
def TranscodeRequest.vector (request : TranscodeRequest) (settings : Config.Settings) : String :=
  (request.name <|> settings.name).getD Config.defaultName

/-- A configuration is made of three choices, of which that of the variant starts from the name. -/
theorem toOption_configure (settings : Config.Settings) (request : TranscodeRequest) :
    (configure settings request).toOption = (do
      let variant ← chosen request.variant Config.readVariant
        (Variant.ofVector (request.vector settings)) settings.variant
      let shape ← chosen request.shape Config.readShape .tagged settings.shape
      some ⟨shape, variant, request.vector settings⟩) := by
  simp only [configure, Config.resolve, named, chosen, TranscodeRequest.vector]
  -- What is left does not depend on how the two settings are read.
  generalize Config.override Config.readVariant _ _ = variant
  generalize Config.override Config.readShape _ _ = shape
  cases variant with
  | error fault => rfl
  | ok v => cases shape <;> rfl

/-- What a request hides makes no difference to its configuration. -/
theorem configure_congr {request : TranscodeRequest} {before after : Config.Settings}
    (h : request.Hides before after) :
    (configure before request).toOption = (configure after request).toOption := by
  have vector : request.vector before = request.vector after := by
    rcases h.name with same | given
    · rw [TranscodeRequest.vector, same, TranscodeRequest.vector]
    · obtain ⟨name, given⟩ := Option.isSome_iff_exists.mp given
      simp [TranscodeRequest.vector, given]
  rw [toOption_configure, toOption_configure, vector, chosen_congr _ h.variant,
    chosen_congr _ h.shape]

/-- There is a configuration if and only if every setting has a meaning. -/
theorem isSome_configure (settings : Config.Settings) (request : TranscodeRequest) :
    (configure settings request).toOption.isSome = allLegible settings := by
  rw [toOption_configure, allLegible,
    ← isSome_chosen (Variant.ofVector (request.vector settings)) settings.variant,
    ← isSome_chosen .tagged settings.shape]
  cases chosen request.variant _ _ _ with
  | none => rfl
  | some variant => cases chosen request.shape _ _ _ <;> rfl

/-! ### Runs -/

section
variable {s : Surroundings} {args : List String} {request : TranscodeRequest}

theorem failed_of_configure {fault : Config.Fault}
    (asked : Invocation.read args = some (.transcode request))
    (h : configure s.settings request = .error fault) :
    run s args = .failed fault.message := by
  refine run_of_error asked ?_
  rw [Invocation.run, runTranscode, h]
  rfl

/-- Without a transcoding nothing depends on the environment. -/
theorem run_of_not_transcode (settings : Config.Settings)
    (h : ∀ request, Invocation.read args ≠ some (.transcode request)) :
    run { s with settings } args = run s args := by
  rw [run, run]
  cases asked : Invocation.read args with
  | none => rfl
  | some invocation =>
      cases invocation with
      | transcode request => exact absurd asked (h request)
      | version => rfl
      | compare witness reference => rfl

/-- A transcoding depends on the environment only for its configuration. -/
theorem shown_congr {settings : Config.Settings}
    (asked : Invocation.read args = some (.transcode request))
    (h : (configure s.settings request).toOption = (configure settings request).toOption) :
    (run { s with settings } args).shown = (run s args).shown := by
  cases before : configure s.settings request with
  | error fault =>
      cases after : configure settings request with
      | error fault' =>
          rw [failed_of_configure asked before,
            failed_of_configure (s := { s with settings }) asked after]
          rfl
      | ok config =>
          rw [before, after] at h
          cases h
  | ok config =>
      cases after : configure settings request with
      | error fault =>
          rw [before, after] at h
          cases h
      | ok config' =>
          rw [before, after] at h
          obtain rfl := Option.some.inj h
          have same : runTranscode { s with settings } request = runTranscode s request := by
            simp only [runTranscode, before, after]
            rfl
          simp only [run, asked, Invocation.run, same]

/-- A setting without a meaning fails a transcoding, whatever its options are. -/
theorem failed_of_illegible (asked : Invocation.read args = some (.transcode request))
    (illegible : allLegible s.settings = false) : ∃ complaint, run s args = .failed complaint := by
  rw [← isSome_configure s.settings request] at illegible
  cases h : configure s.settings request with
  | error fault => exact ⟨_, failed_of_configure asked h⟩
  | ok config =>
      rw [h] at illegible
      cases illegible

/-- **Options shadow the environment.** A change of the environment that the arguments hide changes
nothing that can be seen of the run: any change of the settings that options replace is hidden, as
long as a variant or a shape does not gain or lose a meaning. A setting without a meaning fails the
run even where an option replaces it. -/
theorem run_hides (s : Surroundings) (args : List String) :
    (∀ settings, (∀ request, Invocation.read args = some (.transcode request) →
      request.Hides s.settings settings) →
      (run { s with settings } args).shown = (run s args).shown) ∧
    (∀ request, Invocation.read args = some (.transcode request) →
      allLegible s.settings = false → ∃ complaint, run s args = .failed complaint) := by
  refine ⟨fun settings h => ?_, fun request asked => failed_of_illegible asked⟩
  by_cases transcodes : ∃ request, Invocation.read args = some (.transcode request)
  · obtain ⟨request, asked⟩ := transcodes
    exact shown_congr asked (configure_congr (h request asked))
  · rw [run_of_not_transcode settings (not_exists.mp transcodes)]

end

/-- A name and a variant that options replace, and a shape that has no meaning. -/
theorem run_hides_fewFiles :
    (run { fewFiles with settings := ⟨some "multiple_account_updates", some "Proper", none⟩ }
        ["transcode", "document", "--name", "v", "--variant=SIMPLE"]).shown
      = (run fewFiles ["transcode", "document", "--name", "v", "--variant=SIMPLE"]).shown ∧
    ∃ complaint, run { fewFiles with settings := ⟨none, none, some "both"⟩ }
      ["transcode", "document", "--optional-shape", "flagged"] = .failed complaint := by
  constructor
  · refine (run_hides fewFiles _).1 _ fun request asked => ?_
    have asks : Invocation.read ["transcode", "document", "--name", "v", "--variant=SIMPLE"]
        = some (.transcode ⟨"document", some "v", some .simple, none, .literal, false⟩) := by
      decide +kernel
    rw [asks] at asked
    cases asked
    exact ⟨.inr rfl, .inr ⟨rfl, by decide⟩, .inl rfl⟩
  · exact (run_hides { fewFiles with settings := ⟨none, none, some "both"⟩ }
      ["transcode", "document", "--optional-shape", "flagged"]).2
      ⟨"document", none, none, some .flagged, .literal, false⟩ (by decide +kernel) (by decide)

/-- A variant of the environment is not hidden from a run if it has no meaning. -/
theorem variant_not_hidden :
    ¬ ∀ (s : Surroundings) (args : List String) (request : TranscodeRequest)
      (variant : Option String), Invocation.read args = some (.transcode request) →
        request.variant.isSome = true →
        (run { s with settings := { s.settings with variant } } args).shown
          = (run s args).shown := by
  intro claim
  have asked : Invocation.read ["transcode", "document", "--variant", "simple"]
      = some (.transcode ⟨"document", none, some .simple, none, .literal, false⟩) := by
    decide +kernel
  have valid : configure fewFiles.settings ⟨"document", none, some .simple, none, .literal, false⟩
      = .ok ⟨.tagged, .simple, Config.defaultName⟩ := by
    decide
  have document : fewFiles.file? "document" = some (Transcode.withUpdates []).compact := by
    simp [fewFiles]
  have same := claim fewFiles _ _ (some "fancy") asked rfl
  obtain ⟨complaint, failed⟩ := failed_of_illegible (s := { fewFiles with
    settings := { fewFiles.settings with variant := some "fancy" } }) asked (by decide)
  rcases run_transcode asked valid with ⟨out, -, result⟩ | ⟨none, -⟩
  · rw [failed, result] at same
    have exits : 2 = 0 := congrArg Prod.fst same
    exact absurd exits (by decide)
  · obtain ⟨out, h, -⟩ := ofText_withoutUpdates
    exact none out ⟨_, document, h⟩

end ZkCommand.CommandLine
