import AegCloudDfir.Production.Runs
import AegCloudDfir.Production.Selection

/-!
# Drafts of productions

`update`, `validate` and `submit` of `ProductionsService`
(`apps/api/src/productions/productions.service.ts`) on one production. Each of them is
several transactions with other requests in between:

* `update` is one transaction; it compares the version of the draft and counts it up.
* `validate` reads the draft, resolves the selection, evaluates it, and in the end writes the
  draft it has read back with a snapshot of the flags. It looks at neither status nor version
  then.
* `submit` reads the draft and checks the acknowledgements against the snapshot, resolves the
  selection again, compares the hash of its identifiers, and creates a run of the parameters
  it has read.

Between any two transactions items, redactions, tags and reservations can change, and a
request can end with an error. The lemmas `step_…` say what a step can do.

Kept for the statements only, and not in the database: what a snapshot was calculated from,
the latest successful edit, and how things stood when a run was created.
-/

namespace AegCloudDfir.Production.Drafts

open Transition

/-- `ProductionStatus` -/
inductive ProductionStatus : Type where
  | draft
  | validating
  | submitted
  | released
  | superseded
  deriving DecidableEq

/-- A flag of a `ValidationSnapshot`. -/
structure SnapshotFlag where
  code : ValidationFlagCode
  severity : ValidationSeverity
  overridable : Bool
  requiresElevatedOverride : Bool
  count : ℕ

/-- `ValidationSnapshot` -/
structure ValidationSnapshot (Hash : Type) where
  calculatedAt : JsString
  itemCount : ℕ
  itemIdsHash : Hash
  flags : List SnapshotFlag

/-- A snapshot and what it was calculated from. -/
structure Validation (Id Hash : Type) where
  snapshot : ValidationSnapshot Hash
  params : ProductionValidationParams
  sheets : List (ProductionValidationItem Id)

/-- A row of `productions`. Its `draftParameters` are the parameters and the validation. -/
structure ProductionRow (Id Hash : Type) where
  id : Id
  tenantId : Id
  status : ProductionStatus
  version : ℕ
  parameters : ProductionParameters Id
  validation : Option (Validation Id Hash)

/-- An element of `acknowledgedWarnings`. -/
structure Acknowledgement where
  code : ValidationFlagCode
  note : JsString
  secondConfirmation : Bool

/-- `submitProductionRequest` -/
structure SubmitProductionRequest where
  acknowledgedWarnings : List Acknowledgement
  expectedDraftCalculatedAt : JsString

/-- The exceptions of the requests. -/
inductive RequestError : Type where
  | conflict (message : JsString) (code : Option ValidationFlagCode)
  | badRequest (message : JsString) (codes : List ValidationFlagCode)
  | forbidden (message : JsString) (code : ValidationFlagCode)

/-- A run, and how things stood when it was created. -/
structure Release (Id : Type) where
  /-- the parameters in `frozenParameters` -/
  frozen : ProductionParameters Id
  selectionItemIds : List Id
  acknowledgedWarnings : List Acknowledgement
  /-- the parameters of the draft -/
  draft : ProductionParameters Id
  tables : Tables Id

/-- A request between two transactions, with the parameters it has read. -/
inductive Call (Id Hash : Type) : Type where
  /-- `validate` has read the draft -/
  | validating (parameters : ProductionParameters Id)
  /-- `validate` has resolved the selection -/
  | resolved (parameters : ProductionParameters Id) (ids : List Id)
  /-- `validate` has evaluated the selection -/
  | evaluated (parameters : ProductionParameters Id) (ids : List Id)
    (sheets : List (ProductionValidationItem Id)) (flags : List (ValidationFlag Id))
  /-- `submit` has read the draft and accepted the acknowledgements -/
  | submitting (parameters : ProductionParameters Id) (validation : Validation Id Hash)
    (input : SubmitProductionRequest)
  /-- `submit` has found the identifiers unchanged -/
  | unchanged (parameters : ProductionParameters Id) (validation : Validation Id Hash)
    (input : SubmitProductionRequest) (ids : List Id)

/-- The parameters a request has read. -/
def Call.parameters {Id Hash : Type} : Call Id Hash → ProductionParameters Id
  | .validating parameters => parameters
  | .resolved parameters _ => parameters
  | .evaluated parameters _ _ _ => parameters
  | .submitting parameters _ _ => parameters
  | .unchanged parameters _ _ _ => parameters

/-- One production and what is around it. -/
structure State (Id Hash : Type) where
  tables : Tables Id
  store : Store Id
  production : ProductionRow Id Hash
  calls : List (Call Id Hash)
  releases : List (Release Id)
  /-- the parameters of the latest successful `update` -/
  latest : Option (ProductionParameters Id)

/-- A production that `create` or `cloneRun` has just made. -/
def State.created {Id Hash : Type} (tables : Tables Id) (store : Store Id) (id tenantId : Id)
    (parameters : ProductionParameters Id) : State Id Hash where
  tables
  store
  production := ⟨id, tenantId, .draft, 1, parameters, none⟩
  calls := []
  releases := []
  latest := none

section Requests

variable {Id Hash : Type} [LinearOrder Id] [DecidableEq Hash]

/-- `idsHash`; `digest` is SHA-256 over a list of identifiers, one a line. -/
def idsHash (digest : List Id → Hash) (ids : List Id) : Hash := digest (sorted ids)

/-! ## Editing -/

/-- The transaction of `update`. -/
def ProductionRow.update (production : ProductionRow Id Hash) (version : ℕ)
    (parameters : ProductionParameters Id) : Except RequestError (ProductionRow Id Hash) :=
  if production.status ≠ .draft then
    .error (.conflict (js "only draft productions can be edited") none)
  else if production.version ≠ version then
    .error (.conflict (js "production was modified concurrently; reload and retry") none)
  else
    .ok { production with
      parameters
      validation := none
      version := production.version + 1 }

/-! ## Validating -/

/-- The first transaction of `validate`. -/
def ProductionRow.validate (production : ProductionRow Id Hash) :
    Except RequestError (ProductionParameters Id) :=
  if production.status ≠ .draft then
    .error (.conflict (js "only draft productions can be validated") none)
  else .ok production.parameters

/-- A flag as a snapshot keeps it. -/
def snapshotFlag (flag : ValidationFlag Id) : SnapshotFlag where
  code := flag.code
  severity := flag.severity
  overridable := flag.overridable
  requiresElevatedOverride := flag.requiresElevatedOverride
  count := flag.evidenceItemIds.length

/-- `snapshot`, with what it was calculated from. -/
def validationOf (digest : List Id → Hash) (calculatedAt : JsString)
    (parameters : ProductionParameters Id) (ids : List Id)
    (sheets : List (ProductionValidationItem Id)) (flags : List (ValidationFlag Id)) :
    Validation Id Hash where
  snapshot :=
    { calculatedAt
      itemCount := ids.length
      itemIdsHash := idsHash digest ids
      flags := flags.map snapshotFlag }
  params := parameters.validationParams
  sheets

/-! ## Submitting -/

/-- `isAcknowledgeable` -/
def SnapshotFlag.isAcknowledgeable (flag : SnapshotFlag) : Bool :=
  flag.overridable || flag.requiresElevatedOverride

/-- `flag.severity === 'blocking' || flag.severity === 'security_critical'` -/
def needsAck (severity : ValidationSeverity) : Bool :=
  severity = .blocking || severity = .securityCritical

/-- `acksByCode` -/
def acksByCode (input : SubmitProductionRequest) : JsMap ValidationFlagCode Acknowledgement :=
  JsMap.ofEntries (input.acknowledgedWarnings.map fun ack => (ack.code, ack))

/-- `acksByCode.has(flag.code)` -/
def acked (input : SubmitProductionRequest) (code : ValidationFlagCode) : Bool :=
  ((acksByCode input).get? code).isSome

/-- `!ack || !ack.secondConfirmation` does not hold. -/
def confirmed (input : SubmitProductionRequest) (code : ValidationFlagCode) : Bool :=
  match (acksByCode input).get? code with
  | some ack => ack.secondConfirmation
  | none => false

/-- The checks of the acknowledgements against a snapshot. -/
def checkAcknowledgements (snapshot : ValidationSnapshot Hash) (input : SubmitProductionRequest) :
    Except RequestError Unit :=
  let needingAck := snapshot.flags.filter fun flag => needsAck flag.severity
  let missing := needingAck.filter fun flag => !acked input flag.code
  let notOverridable := needingAck.filter fun flag =>
    !flag.isAcknowledgeable && acked input flag.code
  let unconfirmed := needingAck.filter fun flag =>
    flag.severity = .securityCritical && !confirmed input flag.code
  if missing.length > 0 then
    .error (.badRequest (js "blocking validation flags must be acknowledged")
      (missing.map SnapshotFlag.code))
  else if notOverridable.length > 0 then
    .error (.badRequest
      (js "these validation flags cannot be overridden; change the selection instead")
      (notOverridable.map SnapshotFlag.code))
  else
    match unconfirmed with
    | flag :: _ =>
      .error (.forbidden (js "security-critical flag '" ++ flag.code.text ++
        js "' requires a production_manager second confirmation") flag.code)
    | [] => .ok ()

/-- The first transaction of `submit`, and the checks after it. -/
def ProductionRow.submit (production : ProductionRow Id Hash) (input : SubmitProductionRequest) :
    Except RequestError (ProductionParameters Id × Validation Id Hash) :=
  if production.status ≠ .draft then
    .error (.conflict (js "only draft productions can be submitted") none)
  else
    match production.validation with
    | none => .error (.badRequest (js "run validation before submitting") [])
    | some validation =>
      if input.expectedDraftCalculatedAt ≠ validation.snapshot.calculatedAt then
        .error (.conflict (js "the draft was re-validated since this confirmation; review the latest validation")
          none)
      else
        match checkAcknowledgements validation.snapshot input with
        | .error e => .error e
        | .ok () => .ok (production.parameters, validation)

end Requests

/-! ## The system -/

/-- What can happen next. The results of saved searches come from the search engine. -/
inductive Event (Id : Type) : Type where
  /-- anything outside of the production changes -/
  | change (tables : Tables Id) (store : Store Id)
  | update (version : ℕ) (parameters : ProductionParameters Id)
  | validate
  /-- the `i`-th request resolves its selection -/
  | resolve (i : ℕ) (searches : Id → List Id)
  /-- the `i`-th request evaluates its selection -/
  | evaluate (i rounds : ℕ)
  /-- the `i`-th request writes its snapshot -/
  | save (i : ℕ) (calculatedAt : JsString)
  | submit (input : SubmitProductionRequest)
  /-- the `i`-th request creates its run -/
  | create (i : ℕ) (runId : Id)
  /-- the `i`-th request ends with an error -/
  | abort (i : ℕ)

section System

variable {Id Hash : Type} [LinearOrder Id] [DecidableEq Hash]

/-- A request starts. -/
def State.opened (s : State Id Hash) (call : Call Id Hash) : State Id Hash :=
  { s with calls := s.calls ++ [call] }

/-- A request goes on. -/
def State.goesOn (s : State Id Hash) (i : ℕ) (call : Call Id Hash) : State Id Hash :=
  { s with calls := s.calls.set i call }

/-- A request ends. -/
def State.closed (s : State Id Hash) (i : ℕ) : State Id Hash :=
  { s with calls := s.calls.eraseIdx i }

/-- The last transaction of `validate`. -/
def State.save (s : State Id Hash) (i : ℕ) (parameters : ProductionParameters Id)
    (validation : Validation Id Hash) : State Id Hash :=
  { s.closed i with
    production := { s.production with parameters, validation := some validation } }

/-- The last transaction of `submit`. -/
def State.create (s : State Id Hash) (i : ℕ) (runId : Id) (parameters : ProductionParameters Id)
    (input : SubmitProductionRequest) (ids : List Id) : State Id Hash :=
  match s.store.submit s.production.tenantId s.production.id runId parameters.bates ids with
  | .error _ => s.closed i
  | .ok store =>
    { s.closed i with
      store
      production := { s.production with status := .submitted }
      releases := s.releases ++
        [{ frozen := parameters
           selectionItemIds := ids
           acknowledgedWarnings := input.acknowledgedWarnings
           draft := s.production.parameters
           tables := s.tables }] }

variable (toLowerCase : JsString → JsString) (digest : List Id → Hash)

/-- What an event does. -/
def step (s : State Id Hash) : Event Id → Option (State Id Hash)
  | .change tables store => some { s with tables, store }
  | .update version parameters =>
    match s.production.update version parameters with
    | .error _ => some s
    | .ok production => some { s with production, latest := some parameters }
  | .validate =>
    match s.production.validate with
    | .error _ => some s
    | .ok parameters => some (s.opened (.validating parameters))
  | .resolve i searches =>
    match s.calls[i]? with
    | some (.validating parameters) =>
      some (s.goesOn i (.resolved parameters (resolveSelectionIds searches s.tables parameters)))
    | some (.submitting parameters validation input) =>
      let ids := resolveSelectionIds searches s.tables parameters
      if idsHash digest ids = validation.snapshot.itemIdsHash then
        some (s.goesOn i (.unchanged parameters validation input ids))
      else some (s.closed i)
    | _ => none
  | .evaluate i rounds =>
    match s.calls[i]? with
    | some (.resolved parameters ids) =>
      let sheets := loadValidationItems toLowerCase s.tables ids parameters
      match validateProductionSet rounds sheets parameters.validationParams with
      | none => none
      | some flags => some (s.goesOn i (.evaluated parameters ids sheets flags))
    | _ => none
  | .save i calculatedAt =>
    match s.calls[i]? with
    | some (.evaluated parameters ids sheets flags) =>
      some (s.save i parameters (validationOf digest calculatedAt parameters ids sheets flags))
    | _ => none
  | .submit input =>
    match s.production.submit input with
    | .error _ => some s
    | .ok (parameters, validation) => some (s.opened (.submitting parameters validation input))
  | .create i runId =>
    match s.calls[i]? with
    | some (.unchanged parameters _ input ids) =>
      if s.store.runs.any fun run => run.id = runId then none
      else some (s.create i runId parameters input ids)
    | _ => none
  | .abort i => some (s.closed i)

/-! ## What the transactions do -/

omit [LinearOrder Id] [DecidableEq Hash] in
/-- An edit of a draft of the version it names. -/
theorem update_ok {production after : ProductionRow Id Hash} {version : ℕ}
    {parameters : ProductionParameters Id} (h : production.update version parameters = .ok after) :
    production.status = .draft ∧ production.version = version ∧
      after = { production with
        parameters
        validation := none
        version := production.version + 1 } := by
  rw [ProductionRow.update] at h
  split_ifs at h with hstatus hversion
  cases h
  exact ⟨not_not.mp hstatus, not_not.mp hversion, rfl⟩

omit [LinearOrder Id] [DecidableEq Hash] in
theorem validate_ok {production : ProductionRow Id Hash} {parameters : ProductionParameters Id}
    (h : production.validate = .ok parameters) :
    production.status = .draft ∧ parameters = production.parameters := by
  rw [ProductionRow.validate] at h
  split_ifs at h with hstatus
  cases h
  exact ⟨not_not.mp hstatus, rfl⟩

omit [DecidableEq Hash] in
/-- **Accepted acknowledgements**: everything that needs one may have one, and has it. -/
theorem checkAcknowledgements_ok {snapshot : ValidationSnapshot Hash}
    {input : SubmitProductionRequest} (h : checkAcknowledgements snapshot input = .ok ()) :
    ∀ flag ∈ snapshot.flags, needsAck flag.severity →
      acked input flag.code ∧ flag.isAcknowledgeable ∧
        (flag.severity = .securityCritical → confirmed input flag.code) := by
  intro flag hflag hneeds
  have hmem : flag ∈ snapshot.flags.filter fun flag => needsAck flag.severity :=
    List.mem_filter.mpr ⟨hflag, hneeds⟩
  simp only [checkAcknowledgements, gt_iff_lt, List.length_pos_iff, ne_eq] at h
  split_ifs at h with hmissing hnot
  rw [List.filter_eq_nil_iff] at hmissing hnot
  have hacked : acked input flag.code := by simpa using hmissing flag hmem
  refine ⟨hacked, by simpa [hacked] using hnot flag hmem, fun hcritical => ?_⟩
  split at h
  · cases h
  · next hnil =>
    rw [List.filter_eq_nil_iff] at hnil
    simpa [hcritical] using hnil flag hmem

omit [LinearOrder Id] [DecidableEq Hash] in
/-- A request to submit that gets past the first transaction. -/
theorem submit_accepted {production : ProductionRow Id Hash} {input : SubmitProductionRequest}
    {parameters : ProductionParameters Id} {validation : Validation Id Hash}
    (h : production.submit input = .ok (parameters, validation)) :
    production.status = .draft ∧ parameters = production.parameters ∧
      production.validation = some validation ∧
      input.expectedDraftCalculatedAt = validation.snapshot.calculatedAt ∧
      checkAcknowledgements validation.snapshot input = .ok () := by
  rw [ProductionRow.submit] at h
  split_ifs at h with hstatus
  rcases hvalidation : production.validation with _ | v
  · simp [hvalidation] at h
  · simp only [hvalidation] at h
    split_ifs at h with hexpected
    rcases hacks : checkAcknowledgements v.snapshot input with e | u
    · simp [hacks] at h
    · simp only [hacks] at h
      cases h
      exact ⟨not_not.mp hstatus, rfl, rfl, not_not.mp hexpected, hacks⟩

/-! ## What a step can do -/

variable {toLowerCase digest} {s s' : State Id Hash}

theorem step_update {version : ℕ} {parameters : ProductionParameters Id}
    (h : step toLowerCase digest s (.update version parameters) = some s') :
    s' = s ∨ ∃ production, s.production.update version parameters = .ok production ∧
      s' = { s with production, latest := some parameters } := by
  rw [step] at h
  rcases hupdate : s.production.update version parameters with e | production
  · simp only [hupdate] at h
    exact .inl (Option.some.inj h).symm
  · simp only [hupdate] at h
    exact .inr ⟨production, rfl, (Option.some.inj h).symm⟩

theorem step_validate (h : step toLowerCase digest s .validate = some s') :
    s' = s ∨ s' = s.opened (.validating s.production.parameters) := by
  rw [step] at h
  rcases hvalidate : s.production.validate with e | parameters
  · simp only [hvalidate] at h
    exact .inl (Option.some.inj h).symm
  · simp only [hvalidate] at h
    obtain ⟨-, rfl⟩ := validate_ok hvalidate
    exact .inr (Option.some.inj h).symm

theorem step_resolve {i : ℕ} {searches : Id → List Id}
    (h : step toLowerCase digest s (.resolve i searches) = some s') :
    (∃ parameters ids, s.calls[i]? = some (.validating parameters) ∧
      s' = s.goesOn i (.resolved parameters ids)) ∨
    (∃ parameters validation input ids,
      s.calls[i]? = some (.submitting parameters validation input) ∧
        s' = s.goesOn i (.unchanged parameters validation input ids)) ∨
    s' = s.closed i := by
  rw [step] at h
  rcases hcall : s.calls[i]? with _ | call
  · simp [hcall] at h
  · rcases call with parameters | _ | _ | ⟨parameters, validation, input⟩ | _
    · simp only [hcall] at h
      exact .inl ⟨parameters, _, rfl, (Option.some.inj h).symm⟩
    · simp [hcall] at h
    · simp [hcall] at h
    · simp only [hcall] at h
      split_ifs at h
      · exact .inr (.inl ⟨parameters, validation, input, _, rfl, (Option.some.inj h).symm⟩)
      · exact .inr (.inr (Option.some.inj h).symm)
    · simp [hcall] at h

theorem step_evaluate {i rounds : ℕ}
    (h : step toLowerCase digest s (.evaluate i rounds) = some s') :
    ∃ parameters ids flags, s.calls[i]? = some (.resolved parameters ids) ∧
      Returns (loadValidationItems toLowerCase s.tables ids parameters) parameters.validationParams
        flags ∧
      s' = s.goesOn i (.evaluated parameters ids
        (loadValidationItems toLowerCase s.tables ids parameters) flags) := by
  rw [step] at h
  rcases hcall : s.calls[i]? with _ | call
  · simp [hcall] at h
  · rcases call with _ | ⟨parameters, ids⟩ | _ | _ | _
    · simp [hcall] at h
    · simp only [hcall] at h
      rcases hflags : validateProductionSet rounds
        (loadValidationItems toLowerCase s.tables ids parameters) parameters.validationParams with
        _ | flags
      · simp [hflags] at h
      · simp only [hflags] at h
        exact ⟨parameters, ids, flags, rfl, ⟨rounds, hflags⟩, (Option.some.inj h).symm⟩
    · simp [hcall] at h
    · simp [hcall] at h
    · simp [hcall] at h

theorem step_save {i : ℕ} {calculatedAt : JsString}
    (h : step toLowerCase digest s (.save i calculatedAt) = some s') :
    ∃ parameters ids sheets flags,
      s.calls[i]? = some (.evaluated parameters ids sheets flags) ∧
      s' = s.save i parameters (validationOf digest calculatedAt parameters ids sheets flags) := by
  rw [step] at h
  rcases hcall : s.calls[i]? with _ | call
  · simp [hcall] at h
  · rcases call with _ | _ | ⟨parameters, ids, sheets, flags⟩ | _ | _
    · simp [hcall] at h
    · simp [hcall] at h
    · simp only [hcall] at h
      exact ⟨parameters, ids, sheets, flags, rfl, (Option.some.inj h).symm⟩
    · simp [hcall] at h
    · simp [hcall] at h

theorem step_submit {input : SubmitProductionRequest}
    (h : step toLowerCase digest s (.submit input) = some s') :
    s' = s ∨ ∃ validation, s.production.validation = some validation ∧
      checkAcknowledgements validation.snapshot input = .ok () ∧
      s' = s.opened (.submitting s.production.parameters validation input) := by
  rw [step] at h
  rcases hsubmit : s.production.submit input with e | ⟨parameters, validation⟩
  · simp only [hsubmit] at h
    exact .inl (Option.some.inj h).symm
  · simp only [hsubmit] at h
    obtain ⟨-, rfl, hvalidation, -, hacks⟩ := submit_accepted hsubmit
    exact .inr ⟨validation, hvalidation, hacks, (Option.some.inj h).symm⟩

theorem step_create {i : ℕ} {runId : Id}
    (h : step toLowerCase digest s (.create i runId) = some s') :
    ∃ parameters validation input ids,
      s.calls[i]? = some (.unchanged parameters validation input ids) ∧
      s' = s.create i runId parameters input ids := by
  rw [step] at h
  rcases hcall : s.calls[i]? with _ | call
  · simp [hcall] at h
  · rcases call with _ | _ | _ | _ | ⟨parameters, validation, input, ids⟩
    · simp [hcall] at h
    · simp [hcall] at h
    · simp [hcall] at h
    · simp [hcall] at h
    · simp only [hcall] at h
      split_ifs at h
      exact ⟨parameters, validation, input, ids, rfl, (Option.some.inj h).symm⟩

/-- The reservations that overlap with that of a run of the parameters. -/
def State.reserved (s : State Id Hash) (parameters : ProductionParameters Id) (ids : List Id) :
    List (Reservation Id) :=
  s.store.overlapping s.production.tenantId parameters.bates.batesPrefix
    parameters.bates.startNumber (endNumberOf parameters.bates ids)

omit [DecidableEq Hash] in
/-- **A run is created** exactly if nothing overlaps with its reservation. -/
theorem create_cases (s : State Id Hash) (i : ℕ) (runId : Id)
    (parameters : ProductionParameters Id) (input : SubmitProductionRequest) (ids : List Id) :
    (s.reserved parameters ids ≠ [] ∧ s.create i runId parameters input ids = s.closed i) ∨
    (s.reserved parameters ids = [] ∧ ∃ store, s.create i runId parameters input ids =
      { s.closed i with
        store
        production := { s.production with status := .submitted }
        releases := s.releases ++
          [⟨parameters, ids, input.acknowledgedWarnings, s.production.parameters, s.tables⟩] }) := by
  rcases hreserved : s.reserved parameters ids with _ | ⟨r, rs⟩
  · right
    refine ⟨rfl, ?_⟩
    rw [State.reserved] at hreserved
    rw [State.create, Store.submit]
    simp only [hreserved]
    exact ⟨_, rfl⟩
  · left
    refine ⟨by simp, ?_⟩
    rw [State.reserved] at hreserved
    rw [State.create, Store.submit]
    simp only [hreserved]

/-! ## What does not change -/

section Frame

omit [LinearOrder Id] [DecidableEq Hash]

variable {call : Call Id Hash} {i : ℕ} {Q : Call Id Hash → Prop}

theorem mem_calls_opened (hs : ∀ c ∈ s.calls, Q c) (hcall : Q call) :
    ∀ c ∈ (s.opened call).calls, Q c := by
  intro c hc
  rcases List.mem_append.mp hc with hc | hc
  · exact hs c hc
  · exact List.mem_singleton.mp hc ▸ hcall

theorem mem_calls_goesOn (hs : ∀ c ∈ s.calls, Q c) (hcall : Q call) :
    ∀ c ∈ (s.goesOn i call).calls, Q c := by
  intro c hc
  rcases List.mem_or_eq_of_mem_set hc with hc | rfl
  · exact hs c hc
  · exact hcall

theorem mem_calls_closed (hs : ∀ c ∈ s.calls, Q c) : ∀ c ∈ (s.closed i).calls, Q c :=
  fun c hc => hs c (List.mem_of_mem_eraseIdx hc)

end Frame

end System

end AegCloudDfir.Production.Drafts
