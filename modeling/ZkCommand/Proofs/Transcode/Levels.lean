import ZkCommand.Proofs.Transcode.Diagnostics

/-!
# ZkCommand.Proofs.Transcode.Levels

**What is told of permission levels.** `None` asks for no authorization at all, so a level that
becomes `None` without having that label should leave a trace: a warning if there is a label that no
level has, and a note if there is none. `toldLevels` lists these traces of a document by looking up
the levels at their places, and `levels_walk` says that a walk tells of levels just this.

One level can become `None` without a trace: the one of the policy on the verification key, of
permissions that do not give such a policy.
-/

namespace ZkCommand

/-! ### Levels of permissions -/

/-- The place of the level of the policy on the verification key. -/
def policyLevel : List Segment := [.key "setVerificationKey", .key "auth"]

/-- The levels of permissions, at their places. -/
def Permissions.levels (permissions : Permissions) : List (List Segment × Auth) :=
  [(policyLevel, permissions.setVerificationKey.auth), ([.key "editState"], permissions.editState),
   ([.key "access"], permissions.access), ([.key "send"], permissions.send),
   ([.key "receive"], permissions.receive), ([.key "setDelegate"], permissions.setDelegate),
   ([.key "setPermissions"], permissions.setPermissions),
   ([.key "setZkappUri"], permissions.setZkappUri),
   ([.key "editActionState"], permissions.editActionState),
   ([.key "setTokenSymbol"], permissions.setTokenSymbol),
   ([.key "incrementNonce"], permissions.incrementNonce),
   ([.key "setVotingFor"], permissions.setVotingFor), ([.key "setTiming"], permissions.setTiming)]

/-- The place of the permissions of an account update. -/
def permissionsAt (i : Nat) : List Segment :=
  [.key "accountUpdates", .index i] ++ permissionsPlace

/-! ### What is told -/

namespace Event

/-- The event tells of a permission level. -/
def isLevel : Event → Bool
  | .permissionMissing _ _ => true
  | .fallback d => d.fallback = .auth
  | _ => false

/-- The event tells why the level at a path is none, where a value is found or not: it warns of the
label, or it notes that a key on the way to the level is missing. -/
def tellsOf (p : Path) (found : Option Tree) (event : Event) : Bool :=
  match found with
  | some (.str label) => event = .fallback ⟨p, .auth, label⟩
  | some .null => event = .fallback ⟨p, .auth, ""⟩
  | some _ => false
  | none =>
      match event with
      | .permissionMissing above key => (above.key key).segments.isPrefixOf p.segments
      | _ => false

end Event

/-- What is told of the level at a place below a node. A missing level is told, but a missing
mapping on the way to it is not. -/
def levelEvents (p : Path) : List Segment → Tree → List Event
  | [.key key], t =>
      match t.get? key with
      | some v => (authFallback (p.key key) v).map .fallback
      | none => [.permissionMissing p key]
  | .key key :: place, t =>
      match (t.get? key).filter fun v => !v.isNull with
      | some v => levelEvents (p.key key) place v
      | none => []
  | _, _ => []

/-- What is told of the levels of permissions. Of the ones that are null or empty nothing is. -/
def permissionEvents (p : Path) : Tree → List Event
  | .null => []
  | .map [] => []
  | permissions => levelPlaces.flatMap fun place => levelEvents p place permissions

/-- What is told of the levels of a document, in the order of its account updates. -/
def toldLevels (t : Tree) : List Event :=
  match t.get? "accountUpdates" with
  | some (.list updates) =>
      (updates.mapIdx fun i update =>
        match update.at? permissionsPlace with
        | some permissions => permissionEvents ⟨permissionsAt i⟩ permissions
        | none => []).flatten
  | _ => []

/-! ### The levels that the schema reads -/

namespace Reading

variable {α β γ : Type} {p : Path} {t : Tree}

/-- What a reading notices of levels. -/
def levelsOf (r : Reading α) (p : Path) (t : Tree) : List Event :=
  (r.eventsOf p t).filter Event.isLevel

/-- No part of a reading is a level. -/
@[simp] def levelFree {α : Type} : Reading α → Bool
  | .leaf _ => true
  | .label fallback _ => fallback ≠ .auth
  | .slots _ => true
  | .list item => item.levelFree
  | .done _ => true
  | .note _ => true
  | .field (.level _) _ _ => false
  | .field _ _ inner => inner.levelFree
  | .seq first next => first.levelFree && next.levelFree

theorem levelsOf_note (known : List String) : (note known).levelsOf p t = [] := by
  rw [levelsOf, eventsOf, List.filter_map, List.map_eq_nil_iff, List.filter_eq_nil_iff]
  exact fun _ _ => Bool.false_ne_true

theorem levelsOf_seq {first : Reading β} {next : Reading (β → γ)} :
    (seq first next).levelsOf p t = first.levelsOf p t ++ next.levelsOf p t := by
  rw [levelsOf, eventsOf, List.filter_append]
  rfl

theorem levelsOf_field {access : Access β} {key : String} {inner : Reading β}
    (silent : access.missingEvents p key = []) :
    (field access key inner).levelsOf p t = match access.child? key t with
      | some v => inner.levelsOf (p.key key) v
      | none => [] := by
  rw [levelsOf, eventsOf]
  cases access.child? key t with
  | some v => rfl
  | none => rw [silent]; rfl

theorem levelsOf_list {item : Reading α} {items : List Tree} :
    (list item).levelsOf p (.list items)
      = (items.mapIdx fun i v => item.levelsOf (p.index i) v).flatten := by
  rw [levelsOf, eventsOf, List.filter_flatten, map_mapIdx]
  rfl

/-- A reading without levels tells of none. -/
theorem levelsOf_of_levelFree {r : Reading α} (h : r.levelFree = true) (p : Path) (t : Tree) :
    r.levelsOf p t = [] := by
  induction r generalizing p t with
  | leaf read => rfl
  | label fallback read =>
      obtain rfl : fallback = .sign := by
        cases fallback with
        | auth => simp at h
        | sign => rfl
      rw [levelsOf, eventsOf]
      cases read t with
      | ok result => cases hr : result.unrecognised <;> simp [hr, Event.isLevel]
      | error fault => rfl
  | slots shape => rfl
  | list item ih =>
      cases t with
      | list items =>
          rw [levelsOf_list, List.flatten_eq_nil_iff]
          intro told htold
          obtain ⟨i, hi, rfl⟩ := List.mem_mapIdx.mp htold
          exact ih h _ _
      | _ => rfl
  | done value => rfl
  | note known => exact levelsOf_note known
  | field access key inner ih =>
      have silent : access.missingEvents p key = [] ∧ inner.levelFree = true := by
        cases access with
        | level default => cases h
        | _ => exact ⟨rfl, h⟩
      rw [levelsOf_field silent.1]
      cases access.child? key t with
      | some v => exact ih silent.2 _ _
      | none => rfl
  | seq first next ihf ihn =>
      obtain ⟨hf, hn⟩ := (Bool.and_eq_true _ _).mp h
      rw [levelsOf_seq, ihf hf p t, ihn hn p t]
      rfl

theorem levelsOf_table (known : List String) (next : Reading α) :
    (table known next).levelsOf p t = next.levelsOf p t := by
  rw [levelsOf_seq, levelsOf_note, levelsOf_seq, List.nil_append]
  exact List.append_nil _

theorem levelsOf_seq_of_first {first : Reading β} {next : Reading (β → γ)}
    (h : first.levelFree = true) : (seq first next).levelsOf p t = next.levelsOf p t := by
  rw [levelsOf_seq, levelsOf_of_levelFree h, List.nil_append]

theorem levelsOf_seq_of_next {first : Reading β} {next : Reading (β → γ)}
    (h : next.levelFree = true) : (seq first next).levelsOf p t = first.levelsOf p t := by
  rw [levelsOf_seq, levelsOf_of_levelFree h, List.append_nil]

/-! ### Permissions -/

theorem levelsOf_auth (p : Path) (t : Tree) :
    (label .auth Leaf.auth).levelsOf p t = (authFallback p t).map .fallback := by
  have labels : (label .auth Leaf.auth).levelsOf p t
      = ((label .auth Leaf.auth).diagnosticsOf p t).map .fallback := by
    rw [levelsOf, eventsOf, diagnosticsOf]
    cases Leaf.auth t with
    | ok result => cases hr : result.unrecognised <;> simp [hr, Event.isLevel]
    | error fault => rfl
  rw [labels, diagnosticsOf_auth, foundAt_nil]

theorem levelsOf_level (key : String) (p : Path) (t : Tree) :
    (field (.level .none) key (label .auth Leaf.auth)).levelsOf p t
      = levelEvents p [.key key] t := by
  rw [levelsOf, eventsOf, levelEvents, Access.child?_level]
  cases t.get? key with
  | some v => exact levelsOf_auth _ v
  | none => rfl

theorem levelsOf_policy (p : Path) (t : Tree) :
    (field (.given Schema.noPolicy) "setVerificationKey" setVerificationKey).levelsOf p t
      = levelEvents p policyLevel t := by
  rw [levelsOf_field rfl, policyLevel, levelEvents, Access.child?_given]
  · cases (t.get? "setVerificationKey").filter fun v => !v.isNull with
    | some v =>
        show setVerificationKey.levelsOf _ v = _
        rw [setVerificationKey, levelsOf_table, levelsOf_seq_of_next rfl]
        exact levelsOf_level "auth" _ v
    | none => rfl
  · simp

theorem levelsOf_permissions (p : Path) (t : Tree) :
    permissions.levelsOf p t = levelPlaces.flatMap fun place => levelEvents p place t := by
  rw [permissions, levelsOf_table, levelsOf_seq, levelsOf_policy]
  iterate 12 rw [levelsOf_seq, levelsOf_level]
  rfl

theorem levelsOf_update (shape : Shape) (p : Path) (t : Tree) :
    (update shape).levelsOf p t = match t.get? "permissions" with
      | some v => permissionEvents (p.key "permissions") v
      | none => [] := by
  rw [update, levelsOf_table]
  -- Before the permissions stand the state, the delegate and the verification key.
  iterate 3 rw [levelsOf_seq_of_first rfl]
  rw [levelsOf_seq_of_next rfl, levelsOf_field rfl, Access.child?_block]
  cases t.get? "permissions" with
  | none => rfl
  | some v =>
      have given : ∀ p, (map shape.present permissions).levelsOf p v
          = levelPlaces.flatMap fun place => levelEvents p place v := by
        intro p
        rw [levelsOf_seq_of_next rfl, levelsOf_permissions]
      cases v with
      | null => rfl
      | map entries =>
          cases entries with
          | nil => rfl
          | cons entry rest => exact given _
      | _ => exact given _

theorem levelsOf_accountUpdate (shape : Shape) (p : Path) (t : Tree) :
    (accountUpdate shape).levelsOf p t = match t.at? permissionsPlace with
      | some v => permissionEvents ⟨p.segments ++ permissionsPlace⟩ v
      | none => [] := by
  rw [accountUpdate, levelsOf_table, levelsOf_seq_of_next rfl, levelsOf_field rfl,
    Access.child?_required, permissionsPlace, Tree.at?]
  cases t.get? "body" with
  | none => rfl
  | some body =>
      show (accountUpdateBody shape).levelsOf _ body = _
      rw [accountUpdateBody, levelsOf_table]
      -- Before the update stand parts without levels.
      iterate 5 rw [levelsOf_seq_of_first rfl]
      rw [levelsOf_seq_of_next rfl, levelsOf_field rfl, Access.child?_required,
        Option.bind_some, Tree.at?]
      cases body.get? "update" with
      | none => rfl
      | some v =>
          show (update shape).levelsOf _ v = _
          rw [levelsOf_update, Option.bind_some, Tree.at?]
          cases v.get? "permissions" with
          | none => rfl
          | some permissions => simp [Tree.at?, Path.key]

/-- What a document tells of levels is found by looking up their places. -/
theorem levelsOf_document (config : Config) (t : Tree) :
    (document config).levelsOf Path.root t = toldLevels t := by
  have expected : (Reading.expected config.variant).levelFree = true := by
    cases config.variant <;> rfl
  rw [document, levelsOf_table, levelsOf_seq_of_first rfl,
    levelsOf_seq_of_next (by simp [expected]), levelsOf_field rfl, toldLevels,
    Access.child?_required]
  cases t.get? "accountUpdates" with
  | none => rfl
  | some updates =>
      cases updates with
      | list items =>
          show (list (accountUpdate config.shape)).levelsOf _ (.list items) = _
          rw [levelsOf_list]
          simp only [levelsOf_accountUpdate]
          rfl
      | _ => rfl

end Reading

/-! ### Levels that are none -/

/-- A level is read under a key of permissions, or it is that of the policy. -/
theorem Permissions.ReadFrom.level {t : Tree} {permissions : Permissions}
    (h : permissions.ReadFrom t) {place : List Segment} {level : Auth}
    (mem : (place, level) ∈ permissions.levels) :
    (∃ key, place = [.key key] ∧ Entry.level key t level) ∨
      place = policyLevel ∧ level = permissions.setVerificationKey.auth := by
  have each : ∀ entry ∈ permissions.levels,
      (∃ key, entry.1 = [.key key] ∧ Entry.level key t entry.2) ∨
        entry.1 = policyLevel ∧ entry.2 = permissions.setVerificationKey.auth := by
    simp only [Permissions.levels, List.forall_mem_cons]
    exact ⟨Or.inr ⟨trivial, trivial⟩, Or.inl ⟨_, rfl, h.editState⟩, Or.inl ⟨_, rfl, h.access⟩,
      Or.inl ⟨_, rfl, h.send⟩, Or.inl ⟨_, rfl, h.receive⟩, Or.inl ⟨_, rfl, h.setDelegate⟩,
      Or.inl ⟨_, rfl, h.setPermissions⟩, Or.inl ⟨_, rfl, h.setZkappUri⟩,
      Or.inl ⟨_, rfl, h.editActionState⟩, Or.inl ⟨_, rfl, h.setTokenSymbol⟩,
      Or.inl ⟨_, rfl, h.incrementNonce⟩, Or.inl ⟨_, rfl, h.setVotingFor⟩,
      Or.inl ⟨_, rfl, h.setTiming⟩, by simp⟩
  exact each _ mem

theorem mem_levelPlaces {permissions : Permissions} {place : List Segment} {level : Auth}
    (mem : (place, level) ∈ permissions.levels) : place ∈ levelPlaces := by
  have places : permissions.levels.map Prod.fst = levelPlaces := rfl
  rw [← places]
  exact List.mem_map_of_mem mem

/-- A level that is none without having that label is told. -/
theorem exists_told_of_level {key : String} {t : Tree} (p : Path)
    (read : Entry.level key t .none) (unspelt : t.get? key ≠ some (.str "None")) :
    ∃ event ∈ levelEvents p [.key key] t,
      event.tellsOf (p.key key) (t.get? key) = true := by
  obtain ⟨-, read⟩ := read
  rw [Access.child?_level] at read
  rw [levelEvents]
  cases found : t.get? key with
  | none =>
      refine ⟨_, List.mem_singleton_self _, ?_⟩
      simp [Event.tellsOf]
  | some v =>
      rw [found] at read unspelt
      obtain ⟨result, read, value⟩ := read
      cases v with
      | null => exact ⟨_, List.mem_singleton_self _, decide_eq_true rfl⟩
      | str label =>
          have unknown : Auth.ofLabel? label = none := by
            cases known : Auth.ofLabel? label with
            | none => rfl
            | some level =>
                rw [Leaf.auth, known] at read
                obtain rfl := Except.ok.inj read
                obtain rfl : level = .none := value
                have named : Auth.none.label = label := by
                  simpa using List.find?_some known
                exact absurd (congrArg (some ∘ Tree.str) named.symm) unspelt
          refine ⟨.fallback ⟨p.key key, .auth, label⟩, ?_, decide_eq_true rfl⟩
          show _ ∈ (authFallback _ (.str label)).map Event.fallback
          rw [authFallback, if_neg (Reading.ofLabel?_eq_none_iff.mp unknown)]
          exact List.mem_singleton_self _
      | _ => cases read

/-- A level is told unless it is that of a policy that is not given. -/
theorem exists_told {v : Tree} {permissions : Permissions} {place : List Segment} (p : Path)
    (read : permissions.ReadFrom v) (level : (place, .none) ∈ permissions.levels)
    (unspelt : v.at? place ≠ some (.str "None"))
    (given : place = policyLevel →
      ((v.get? "setVerificationKey").filter fun policy => !policy.isNull).isSome = true) :
    ∃ event ∈ levelEvents p place v,
      event.tellsOf ⟨p.segments ++ place⟩ (v.at? place) = true := by
  obtain ⟨key, rfl, readLevel⟩ | ⟨rfl, auth⟩ := read.level level
  · rw [Tree.at?_singleton] at unspelt ⊢
    exact exists_told_of_level p readLevel unspelt
  · obtain ⟨policy, child⟩ := Option.isSome_iff_exists.mp (given rfl)
    have readPolicy : SetVerificationKey.ReadFrom policy permissions.setVerificationKey := by
      have h := read.setVerificationKey.2
      rw [Access.child?_given, child] at h
      exact h
    have found : v.at? policyLevel = policy.get? "auth" := by
      rw [policyLevel, Tree.at?, (Option.filter_eq_some_iff.mp child).1, Option.bind_some,
        Tree.at?_singleton]
    rw [found] at unspelt ⊢
    rw [policyLevel, levelEvents, child]
    · have told := exists_told_of_level (p.key "setVerificationKey") (auth ▸ readPolicy.auth)
        unspelt
      simpa [Path.key] using told
    · simp

/-- Where a policy is not given, its level is not found and nothing is told of it. -/
theorem silent_policy {v : Tree} (p : Path)
    (missing : (v.get? "setVerificationKey").filter (fun policy => !policy.isNull) = none) :
    v.at? policyLevel = none ∧ levelEvents p policyLevel v = [] := by
  constructor
  · rw [policyLevel, Tree.at?]
    cases found : v.get? "setVerificationKey" with
    | none => rfl
    | some policy =>
        rw [found] at missing
        cases policy with
        | null => rfl
        | _ => cases missing
  · rw [policyLevel, levelEvents, missing]
    simp

/-- A key that is told as missing is that of the level. -/
theorem segments_of_missing {above : Path} {key : String} {place : List Segment} {p : Path}
    {t : Tree} (h : .permissionMissing above key ∈ levelEvents p place t) :
    (above.key key).segments = p.segments ++ place := by
  induction p, place, t using levelEvents.induct with
  | case1 p name t v found =>
      rw [levelEvents, found] at h
      obtain ⟨d, -, h⟩ := List.mem_map.mp h
      cases h
  | case2 p name t found =>
      rw [levelEvents, found] at h
      cases List.mem_singleton.mp h
      rfl
  | case3 p name place t _ v given ih =>
      rw [levelEvents, given] at h
      · rw [ih h, Path.key, List.append_assoc, List.singleton_append]
      · assumption
  | case4 p name place t _ missing =>
      rw [levelEvents, missing] at h
      · cases h
      · assumption
  | case5 p place t _ _ =>
      rw [levelEvents] at h
      · cases h
      all_goals assumption

/-! ### Where levels are told -/

theorem mem_permissionEvents {p : Path} {v : Tree} {event : Event} :
    event ∈ permissionEvents p v ↔ v.isNull = false ∧ v ≠ .map [] ∧
      ∃ place ∈ levelPlaces, event ∈ levelEvents p place v := by
  cases v with
  | null => simp [permissionEvents, Tree.isNull]
  | map entries =>
      cases entries with
      | nil => simp [permissionEvents]
      | cons entry rest => simp [permissionEvents, Tree.isNull]
  | _ => simp [permissionEvents, Tree.isNull]

/-- What is told of levels is told of a level of the permissions of some update. -/
theorem mem_toldLevels {t : Tree} {event : Event} : event ∈ toldLevels t ↔
    ∃ i v, t.at? (permissionsAt i) = some v ∧ event ∈ permissionEvents ⟨permissionsAt i⟩ v := by
  rw [toldLevels]
  simp only [permissionsAt, List.cons_append, List.nil_append, Tree.at?]
  cases t.get? "accountUpdates" with
  | none => simp
  | some updates =>
      cases updates with
      | list items =>
          simp only [List.mem_flatten, List.mem_mapIdx, Option.bind_some, Tree.at?]
          constructor
          · intro h
            obtain ⟨_, ⟨i, hi, rfl⟩, h⟩ := h
            cases found : items[i].at? permissionsPlace with
            | none =>
                rw [found] at h
                cases h
            | some v =>
                rw [found] at h
                exact ⟨i, v, by rw [List.getElem?_eq_getElem hi, Option.bind_some, found], h⟩
          · intro h
            obtain ⟨i, v, found, h⟩ := h
            obtain ⟨item, hitem, found⟩ := Option.bind_eq_some_iff.mp found
            obtain ⟨hi, rfl⟩ := List.getElem?_eq_some_iff.mp hitem
            refine ⟨_, ⟨i, hi, rfl⟩, ?_⟩
            rw [found]
            exact h
      | _ => simp [Tree.at?]

/-- An event that tells of a level that is not found is a note on a missing key. -/
theorem missing_of_tellsOf {p : Path} {event : Event} (tells : event.tellsOf p none = true) :
    ∃ above key, event = .permissionMissing above key ∧
      (above.key key).segments <+: p.segments := by
  cases event with
  | permissionMissing above key => exact ⟨above, key, rfl, List.isPrefixOf_iff_prefix.mp tells⟩
  | _ => cases tells

/-- The permissions of different updates are at different places. -/
theorem eq_of_prefix_permissionsAt {i j : Nat} {place place' : List Segment}
    (leads : permissionsAt j ++ place' <+: permissionsAt i ++ place) :
    j = i ∧ place' <+: place := by
  simpa [permissionsAt, permissionsPlace] using leads

/-- No place on the way to the level of the policy is that of another level. -/
theorem eq_of_prefix_policyLevel {place : List Segment} (mem : place ∈ levelPlaces)
    (leads : place <+: policyLevel) : place = policyLevel := by
  have each : ∀ place ∈ levelPlaces, place <+: policyLevel → place = policyLevel := by decide
  exact each place mem leads

namespace Transcode

variable {config : Config} {t : Tree} {out : Outcome}

/-- **What is told of levels** is what is found at their places. -/
theorem levels_walk (h : ofTree config t = .ok out) :
    (walk config t).events.filter Event.isLevel = toldLevels t := by
  have ended := outcome_walk_iff.mpr (ofTree_eq_ok_iff.mp h).1
  rw [events_walk_of_ok ended, List.filter_append, ← Reading.levelsOf_document config]
  exact List.append_nil _

/-- The permissions of an update of a record are read from their place. -/
theorem permissions_readFrom (h : ofTree config t = .ok out) {i : Nat} {update : AccountUpdate}
    {permissions : Permissions} (hupdate : out.record.command.accountUpdates[i]? = some update)
    (given : update.body.update.permissions.value? = some permissions) :
    ∃ v, t.at? (permissionsAt i) = some v ∧ v.isNull = false ∧ v ≠ .map [] ∧
      permissions.ReadFrom v := by
  obtain ⟨read, -⟩ := ofTree_eq_ok_iff.mp h
  obtain ⟨_, updates, items, rfl, each⟩ := Entry.required_iff.mp read.accountUpdates
  obtain ⟨length, get⟩ := List.forall₂_iff_get.mp each
  obtain ⟨hi, rfl⟩ := List.getElem?_eq_some_iff.mp hupdate
  have item := get i (length ▸ hi) hi
  obtain ⟨body, hbody, item⟩ := Entry.required_iff.mp item.body
  obtain ⟨changes, hchanges, item⟩ := Entry.required_iff.mp item.update
  obtain ⟨v, hv, null, empty, item⟩ := Entry.block_present item.permissions given
  refine ⟨v, ?_, null, empty, item⟩
  simp only [permissionsAt, permissionsPlace, List.cons_append, List.nil_append, Tree.at?, updates,
    Option.bind_some, List.getElem?_eq_getElem (length ▸ hi)]
  rw [List.get_eq_getElem] at hbody
  simp only [hbody, hchanges, hv, Option.bind_some]

/-- The policy on the verification key is given among the permissions of an update. -/
def PolicyGiven (t : Tree) (i : Nat) : Prop :=
  ∃ policy, t.at? (permissionsAt i ++ [.key "setVerificationKey"]) = some policy ∧
    policy.isNull = false

/-- **No level becomes none without a trace, unless it is that of a policy that is not given.**
Where the record has `None` among the permissions of an update and the document does not have that
label, the walk tells of the label that it found or of the key that is missing, except that it tells
nothing of the policy on the verification key where that is missing or null. -/
theorem ofTree_none_told (h : ofTree config t = .ok out) {i : Nat} {update : AccountUpdate}
    {permissions : Permissions} {place : List Segment}
    (hupdate : out.record.command.accountUpdates[i]? = some update)
    (given : update.body.update.permissions.value? = some permissions)
    (level : (place, .none) ∈ permissions.levels)
    (unspelt : t.at? (permissionsAt i ++ place) ≠ some (.str "None")) :
    (∃ event ∈ (walk config t).events,
        event.tellsOf ⟨permissionsAt i ++ place⟩ (t.at? (permissionsAt i ++ place)) = true) ↔
      (place = policyLevel → PolicyGiven t i) := by
  obtain ⟨v, hv, null, empty, read⟩ := permissions_readFrom h hupdate given
  have policyGiven : PolicyGiven t i ↔
      ((v.get? "setVerificationKey").filter fun policy => !policy.isNull).isSome = true := by
    simp only [PolicyGiven, Tree.at?_append, hv, Option.bind_some, Tree.at?_singleton,
      Option.isSome_iff_exists, Option.filter_eq_some_iff, Bool.not_eq_true']
  rw [Tree.at?_append, hv, Option.bind_some] at unspelt ⊢
  constructor
  · intro told same
    obtain ⟨event, mem, tells⟩ := told
    subst same
    by_contra absent
    rw [policyGiven, Option.not_isSome_iff_eq_none] at absent
    obtain ⟨notFound, silent⟩ := silent_policy ⟨permissionsAt i⟩ absent
    rw [notFound] at tells
    obtain ⟨above, key, rfl, leads⟩ := missing_of_tellsOf tells
    have told : .permissionMissing above key ∈ toldLevels t := by
      rw [← levels_walk h]
      exact List.mem_filter.mpr ⟨mem, rfl⟩
    -- What is told is told of a level on the way to the one of the policy, and that can only be
    -- this level itself, in the permissions of the same update.
    obtain ⟨j, w, hw, told⟩ := mem_toldLevels.mp told
    obtain ⟨-, -, place, hplace, told⟩ := mem_permissionEvents.mp told
    rw [segments_of_missing told] at leads
    obtain ⟨rfl, below⟩ := eq_of_prefix_permissionsAt leads
    obtain rfl := eq_of_prefix_policyLevel hplace below
    obtain rfl : w = v := Option.some.inj (hw.symm.trans hv)
    rw [silent] at told
    cases told
  · intro policy
    obtain ⟨event, mem, tells⟩ := exists_told ⟨permissionsAt i⟩ read level unspelt
      fun same => policyGiven.mp (policy same)
    have told : event ∈ toldLevels t :=
      mem_toldLevels.mpr ⟨i, v, hv, mem_permissionEvents.mpr
        ⟨null, empty, place, mem_levelPlaces level, mem⟩⟩
    rw [← levels_walk h] at told
    exact ⟨event, (List.mem_filter.mp told).1, tells⟩

/-- The permissions of an update, computed. -/
theorem exists_permissions (config : Config) (t : Tree) (i : Nat) (permissions : Permissions)
    (h : ((ofTree config t).toOption.bind fun out =>
      out.record.command.accountUpdates[i]?.bind fun update =>
        update.body.update.permissions.value?) = some permissions) :
    ∃ out update, ofTree config t = .ok out ∧
      out.record.command.accountUpdates[i]? = some update ∧
      update.body.update.permissions.value? = some permissions := by
  obtain ⟨out, hout, h⟩ := Option.bind_eq_some_iff.mp h
  obtain ⟨update, hupdate, h⟩ := Option.bind_eq_some_iff.mp h
  refine ⟨out, update, ?_, hupdate, h⟩
  cases result : ofTree config t with
  | error fault =>
      rw [result] at hout
      cases hout
  | ok found =>
      rw [result] at hout
      exact congrArg Except.ok (Option.some.inj hout)

/-- The label of a policy that is given and not recognised is told. -/
theorem ofTree_none_told_labelledDocument :
    ∃ event ∈ (walk ⟨.tagged, .simple, ""⟩ labelledDocument).events,
      event.tellsOf ⟨permissionsAt 1 ++ policyLevel⟩ (some (.str "Never")) = true := by
  obtain ⟨out, update, h, hupdate, given⟩ := exists_permissions ⟨.tagged, .simple, ""⟩
    labelledDocument 1 ⟨.none, .none, .proof, .none, .none, .none, ⟨.none, 0⟩, .none, .none, .none,
      .none, .none, .none⟩ (by decide +kernel)
  have level : (policyLevel, .none) ∈ Permissions.levels ⟨.none, .none, .proof, .none, .none, .none,
      ⟨.none, 0⟩, .none, .none, .none, .none, .none, .none⟩ := by decide
  have found : labelledDocument.at? (permissionsAt 1 ++ policyLevel) = some (.str "Never") := rfl
  have told := ofTree_none_told h hupdate given level (by rw [found]; simp)
  rw [found] at told
  exact told.mpr fun _ => ⟨_, rfl, rfl⟩

/-- A document with one account update, which gives all levels but that of the policy. -/
def withoutPolicy : Tree :=
  withUpdates [withLabels "Positive" (.map
    ((Schema.permissionKeys.filter (· ≠ "setVerificationKey")).map fun key => (key, .str "Proof")))]

/-- The level of its policy becomes none without a trace. -/
theorem missing_policy_untold :
    ¬ ∀ (config : Config) (t : Tree) (out : Outcome) (i : Nat) (update : AccountUpdate)
      (permissions : Permissions) (place : List Segment), ofTree config t = .ok out →
        out.record.command.accountUpdates[i]? = some update →
        update.body.update.permissions.value? = some permissions →
        (place, .none) ∈ permissions.levels →
        t.at? (permissionsAt i ++ place) ≠ some (.str "None") →
        ∃ event ∈ (walk config t).events,
          event.tellsOf ⟨permissionsAt i ++ place⟩ (t.at? (permissionsAt i ++ place)) = true := by
  intro claim
  obtain ⟨out, update, h, hupdate, given⟩ := exists_permissions ⟨.tagged, .simple, ""⟩
    withoutPolicy 0 ⟨.proof, .proof, .proof, .proof, .proof, .proof, ⟨.none, 0⟩, .proof, .proof,
      .proof, .proof, .proof, .proof⟩ (by decide +kernel)
  have found : withoutPolicy.at? (permissionsAt 0 ++ policyLevel) = none := rfl
  obtain ⟨event, mem, tells⟩ := claim _ _ out 0 update _ policyLevel h hupdate given (by decide)
    (by rw [found]; simp)
  have silent : ((walk ⟨.tagged, .simple, ""⟩ withoutPolicy).events.any fun event =>
      event.tellsOf ⟨permissionsAt 0 ++ policyLevel⟩ none) = false := by
    decide +kernel
  rw [found] at tells
  exact absurd tells (List.any_eq_false.mp silent event mem)

end Transcode

end ZkCommand
