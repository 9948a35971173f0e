import Mathlib
import AegCloudDfir.Js.Collections
import AegCloudDfir.Js.Text
import AegCloudDfir.Lib.Places
import AegCloudDfir.Collection.System

/-!
# The failures of a collection

An item of a collection fails in the catch of `processCollectionFetchItem`, when its document is
rejected (`processSearchIndex`), when the sweeper gives it up, or when its job dies and
`recordTerminalFailure` (`apps/worker/src/terminal-failure.ts`) finds out from the payload what the
job was about. Each of them writes the state of the item; the exceptions and the counter of failures
are written by some.

An entry of the counter remembers the item it was made for, and a dead job whether its items were
settled; neither is in the database.

* `failureTargetFor`, `step` — the rules, and what can happen to a collection.
* `Consistent` — failed items without a retry have an exception and are counted, and dead jobs are
  recorded.
* `consistent_of_calm` — so it is in all runs whose steps are `Calm`.
-/

namespace AegCloudDfir.Collection.Failures

open Transition Places

/-! ## Payloads -/

/-- `QUEUES` -/
inductive Queue : Type where
  | collectionDiscover
  | collectionFetchPage
  | collectionFetchItem
  | collectionFinalize
  | pstExtract
  | importAnalyze
  | processParse
  | processExtract
  | processOcr
  | processOcrImage
  | processPreview
  | processScan
  | searchIndex
  | searchCaseCollection
  | searchCaseImport
  | exportRun
  | productionRun
  | deletionRun
  deriving DecidableEq

/-- The data of a job: its properties that are strings, and whether the others (`entry`, `message`
and `version`) are as the schema of its queue wants them. -/
structure Payload where
  isObject : Bool
  texts : JsMap JsString JsString
  restFits : Bool
  deriving DecidableEq

/-- `str` of `terminal-failure.ts` -/
def Payload.str (data : Payload) (name : JsString) : Option JsString :=
  (data.texts.get? name).filter fun value => value ≠ []

/-- `CollectionSource`, as payloads write it. -/
def sourceText : Source → JsString
  | .email => js "email"
  | .drive => js "drive"
  | .chat => js "chat"
  | .audit => js "audit"

/-- `collectionSourceValue` -/
def source? (text : JsString) : Option Source :=
  [Source.email, .drive, .chat, .audit].find? fun source => sourceText source = text

/-- The properties that a schema wants to be UUIDs. -/
def uuidFields : Queue → List JsString
  | .collectionDiscover | .collectionFinalize => [js "tenantId", js "collectionId"]
  | .collectionFetchPage | .collectionFetchItem =>
    [js "tenantId", js "collectionId", js "custodianId"]
  | .pstExtract => [js "tenantId", js "collectionId", js "custodianId", js "evidenceItemId"]
  | .importAnalyze => [js "tenantId", js "importId"]
  | .processParse | .processExtract | .processOcr | .processOcrImage | .processPreview
  | .processScan | .searchIndex => [js "tenantId", js "evidenceItemId"]
  | .searchCaseCollection => [js "tenantId", js "caseId", js "collectionId"]
  | .searchCaseImport => [js "tenantId", js "caseId", js "importId"]
  | .exportRun => [js "tenantId", js "exportId"]
  | .productionRun => [js "tenantId", js "productionRunId"]
  | .deletionRun => [js "tenantId", js "deletionRequestId"]

/-- The properties that a schema wants not to be empty. -/
def nonEmptyFields : Queue → List JsString
  | .collectionFetchPage => [js "scopeKey"]
  | .collectionFetchItem => [js "providerItemId"]
  | _ => []

/-- The queue has a payload with a `source`. -/
def hasSource (queue : Queue) : Bool := queue = .collectionFetchPage ∨ queue = .collectionFetchItem

/-- The schema of the queue accepts the payload. -/
def Accepts (isUuid : JsString → Bool) (queue : Queue) (data : Payload) : Prop :=
  data.isObject ∧ data.restFits ∧
    (∀ name ∈ uuidFields queue, ∃ value ∈ data.texts.get? name, isUuid value) ∧
    (∀ name ∈ nonEmptyFields queue, ∃ value ∈ data.texts.get? name, value ≠ []) ∧
    (hasSource queue → ∃ value ∈ data.texts.get? (js "source"), (source? value).isSome)

instance (isUuid : JsString → Bool) (queue : Queue) (data : Payload) :
    Decidable (Accepts isUuid queue data) := by
  unfold Accepts
  infer_instance

/-- `FailureTarget` -/
inductive FailureTarget : Type where
  | collectionItem (tenantId collectionId : JsString) (key : ItemKey JsString)
  | evidenceItem (tenantId evidenceItemId : JsString)
  | forensicImport (tenantId importId : JsString)
  | pstExtract (tenantId collectionId custodianId evidenceItemId : JsString)
  deriving DecidableEq

/-- `failureTargetFor` -/
def failureTargetFor (queue : Queue) (data : Payload) : Option FailureTarget :=
  if ¬ data.isObject then none
  else do
    let tenantId ← data.str (js "tenantId")
    match queue with
    | .collectionFetchItem =>
      let collectionId ← data.str (js "collectionId")
      let custodianId ← data.str (js "custodianId")
      let providerItemId ← data.str (js "providerItemId")
      let source ← (data.str (js "source")).bind source?
      if source = .chat then none
      else some (.collectionItem tenantId collectionId ⟨custodianId, source, providerItemId⟩)
    | .processParse | .processExtract =>
      let evidenceItemId ← data.str (js "evidenceItemId")
      some (.evidenceItem tenantId evidenceItemId)
    | .importAnalyze =>
      let importId ← data.str (js "importId")
      some (.forensicImport tenantId importId)
    | .pstExtract =>
      let collectionId ← data.str (js "collectionId")
      let custodianId ← data.str (js "custodianId")
      let evidenceItemId ← data.str (js "evidenceItemId")
      some (.pstExtract tenantId collectionId custodianId evidenceItemId)
    | _ => none

/-! ## The rows of a collection -/

/-- A row of `collection_items`. -/
structure Item where
  key : ItemKey JsString
  state : ItemState
  attempts : ℕ
  evidenceItemId : Option JsString
  deriving DecidableEq

/-- A row of `evidence_items`. -/
structure Evidence where
  id : JsString
  kind : EvidenceKind
  collectionId : Option JsString
  custodianId : Option JsString
  deriving DecidableEq

/-- A row of `collection_exceptions`. -/
structure ExceptionRow where
  custodianId : Option JsString
  source : Option Source
  providerItemId : JsString
  deriving DecidableEq

/-- An addition to the `failures` of a custodian and a source, and the item it was made for. -/
structure Increment where
  custodianId : JsString
  source : Source
  item : ItemKey JsString
  deriving DecidableEq

/-- How far a job has come. -/
inductive Stage : Type where
  /-- it waits for an attempt -/
  | waiting
  /-- `fetch-item` has loaded its item, which had so many attempts -/
  | loaded (attempts : ℕ)
  /-- `fetch-item` has marked its item -/
  | started (attemptNumber : ℕ)
  | done
  /-- it has failed for good, and `recordTerminalFailure` is to come -/
  | dying
  /-- nothing more will be done about it -/
  | dead (recorded : Bool)
  deriving DecidableEq

/-- The number of the attempt that `fetch-item` is in. -/
def Stage.attempt? : Stage → Option ℕ
  | .started attemptNumber => some attemptNumber
  | _ => none

/-- A job. -/
structure Job where
  queue : Queue
  data : Payload
  attemptsMade : ℕ
  stage : Stage
  deriving DecidableEq

/-- `attempts` of `DEFAULT_JOB_OPTIONS` -/
def maxJobAttempts : ℕ := 8

/-- The job will be attempted again, or is being attempted. -/
def Job.IsLive (job : Job) : Prop :=
  match job.stage with
  | .waiting | .loaded _ | .started _ => True
  | _ => False

instance (job : Job) : Decidable job.IsLive := by
  unfold Job.IsLive
  split <;> infer_instance

/-- A collection. -/
structure State where
  status : Status
  items : List Item
  evidence : List Evidence
  exceptions : List ExceptionRow
  failures : List Increment
  jobs : List Job

section

variable (isUuid : JsString → Bool) (tenantId collectionId : JsString)

/-- The item of the collection that a job of `fetch-item` is about. -/
def Job.fetchKey? (job : Job) : Option (ItemKey JsString) :=
  if job.queue = .collectionFetchItem ∧ job.data.texts.get? (js "tenantId") = some tenantId ∧
      job.data.texts.get? (js "collectionId") = some collectionId then do
    let custodianId ← job.data.texts.get? (js "custodianId")
    let source ← (job.data.texts.get? (js "source")).bind source?
    let providerItemId ← job.data.texts.get? (js "providerItemId")
    some ⟨custodianId, source, providerItemId⟩
  else none

/-- The piece of evidence that a job of the pipeline is about. -/
def Job.evidenceId? (job : Job) : Option JsString :=
  if job.queue ∈ [Queue.processParse, .processExtract, .processOcr, .processOcrImage,
      .processPreview, .processScan, .searchIndex] ∧
      job.data.texts.get? (js "tenantId") = some tenantId then
    job.data.texts.get? (js "evidenceItemId")
  else none

/-- The item that stands for a container. -/
def containerKey (custodianId evidenceItemId : JsString) : ItemKey JsString :=
  ⟨custodianId, .email, js "pst:" ++ evidenceItemId⟩

/-- The item of the collection that a job of `pst.extract` is about. -/
def Job.containerKey? (job : Job) : Option (ItemKey JsString) :=
  if job.queue = .pstExtract ∧ job.data.texts.get? (js "tenantId") = some tenantId ∧
      job.data.texts.get? (js "collectionId") = some collectionId then do
    let custodianId ← job.data.texts.get? (js "custodianId")
    let evidenceItemId ← job.data.texts.get? (js "evidenceItemId")
    some (containerKey custodianId evidenceItemId)
  else none

/-- The job is about the item. -/
def Job.About (job : Job) (item : Item) : Prop :=
  job.fetchKey? tenantId collectionId = some item.key ∨
    job.containerKey? tenantId collectionId = some item.key ∨
    ∃ id ∈ job.evidenceId? tenantId, item.evidenceItemId = some id

instance (job : Job) (item : Item) : Decidable (job.About tenantId collectionId item) := by
  unfold Job.About
  infer_instance

/-- If the schema accepts what the job carries, the items it is about are settled. -/
def Recorded (items : List Item) (job : Job) : Prop :=
  Accepts isUuid job.queue job.data →
    ∀ item ∈ items, job.About tenantId collectionId item → Ledger.isSettled item.state

instance (items : List Item) (job : Job) :
    Decidable (Recorded isUuid tenantId collectionId items job) := by
  unfold Recorded
  infer_instance

/-! ## What can happen -/

/-- What can happen to a collection. -/
inductive Event : Type where
  /-- an item is listed, or claimed with its evidence -/
  | listed (key : ItemKey JsString) (evidence : Option Evidence)
  | enqueued (queue : Queue) (data : Payload)
  | status (status : Status)
  /-- the first transaction of `processCollectionFetchItem` -/
  | loaded (i : ℕ)
  /-- the second one -/
  | started (i : ℕ)
  /-- its item is preserved -/
  | fetched (i : ℕ) (evidence : Evidence)
  /-- `NonDownloadableError` -/
  | skipped (i : ℕ)
  /-- any other error, which `classifyProviderError` takes for permanent or not -/
  | failed (i : ℕ) (unrecoverable : Bool)
  /-- a job of another queue succeeds -/
  | completed (i : ℕ)
  /-- an attempt fails outside the catch of `processCollectionFetchItem` -/
  | threw (i : ℕ) (unrecoverable : Bool)
  /-- the worker is killed, and the job is delivered again -/
  | stalled (i : ℕ)
  /-- the worker is killed once too often -/
  | killed (i : ℕ)
  /-- `recordTerminalFailure` -/
  | handled (i : ℕ)
  /-- its transaction fails -/
  | unhandled (i : ℕ)
  /-- `search.index` succeeds -/
  | indexed (evidenceItemId : JsString)
  /-- the document of a piece of evidence is rejected -/
  | rejected (evidenceItemId : JsString)
  /-- `pst.extract` is through with a container -/
  | extracted (key : ItemKey JsString)
  /-- the sweeper finds a stalled item -/
  | swept (key : ItemKey JsString)

/-- Some items change. -/
def updateItems (p : Item → Bool) (f : Item → Item) (items : List Item) : List Item :=
  items.map fun item => if p item then f item else item

/-- The state of some items changes. -/
def setState (p : Item → Bool) (state : ItemState) : List Item → List Item :=
  updateItems p fun item => { item with state }

/-- The exception that names an item. -/
def exceptionOf (key : ItemKey JsString) : ExceptionRow :=
  ⟨some key.custodianId, some key.source, key.providerItemId⟩

/-- The failure of an item is counted. -/
def incrementOf (key : ItemKey JsString) : Increment := ⟨key.custodianId, key.source, key⟩

/-- `progressSourceFor` -/
def progressSourceFor (kind : EvidenceKind) : Source :=
  if kind = .auditBatch then .audit
  else if kind = .email ∨ kind = .attachment then .email
  else .drive

/-- What the rejection of a document adds to the failures: `failed.count`, one for each item. -/
def rejectionIncrements (row : Evidence) (failed : List Item) : List Increment :=
  match row.custodianId with
  | some custodianId =>
    if row.collectionId = some collectionId then
      failed.map fun item => ⟨custodianId, progressSourceFor row.kind, item.key⟩
    else []
  | none => []

/-- Where an attempt leaves its job that fails. -/
def Job.failedStage (job : Job) (unrecoverable recorded : Bool) : Stage :=
  if maxJobAttempts ≤ job.attemptsMade + 1 then .dying
  else if unrecoverable then .dead recorded
  else .waiting

/-- An item that is not settled fails, with an exception and a count. -/
def State.failItem (s : State) (key : ItemKey JsString) : State :=
  if s.items.any fun item => item.key = key ∧ ¬ Ledger.isSettled item.state then
    { s with
      items := setState (fun item => item.key = key ∧ ¬ Ledger.isSettled item.state) .failed s.items
      exceptions := s.exceptions ++ [exceptionOf key]
      failures := s.failures ++ [incrementOf key] }
  else s

/-- `recordTerminalFailure` -/
def recordTerminalFailure (s : State) : FailureTarget → State
  | .collectionItem tenant collection key =>
    if tenant = tenantId ∧ collection = collectionId then s.failItem key else s
  | .pstExtract tenant collection custodianId evidenceItemId =>
    if tenant = tenantId ∧ collection = collectionId then
      s.failItem (containerKey custodianId evidenceItemId)
    else s
  | .evidenceItem tenant evidenceItemId =>
    if tenant = tenantId then
      { s with
        items := setState
          (fun item => item.evidenceItemId = some evidenceItemId ∧ ¬ Ledger.isSettled item.state)
          .failed s.items }
    else s
  | .forensicImport _ _ => s

/-- The payload of a job that works on an item. -/
def itemPayload (key : ItemKey JsString) : Payload where
  isObject := true
  texts := [(js "tenantId", tenantId), (js "collectionId", collectionId),
    (js "custodianId", key.custodianId), (js "source", sourceText key.source),
    (js "providerItemId", key.providerItemId)]
  restFits := true

/-- The job with which the sweeper has an item go on. -/
def recoveryJob (s : State) (item : Item) : Job :=
  match item.state, item.evidenceItemId with
  | .preserved, some id =>
    if s.evidence.any fun row => row.id = id ∧ row.kind = .container then
      ⟨.pstExtract, ⟨true, [(js "tenantId", tenantId), (js "collectionId", collectionId),
        (js "custodianId", item.key.custodianId), (js "evidenceItemId", id)], true⟩, 0, .waiting⟩
    else ⟨.searchIndex, ⟨true, [(js "tenantId", tenantId), (js "evidenceItemId", id)], true⟩, 0,
      .waiting⟩
  | _, _ => ⟨.collectionFetchItem, itemPayload tenantId collectionId item.key, 0, .waiting⟩

/-- The sweeper gives an item up (`recoveryPlan`). -/
def GivesUp (item : Item) : Prop :=
  Ledger.isInFlight item.state ∧
    (maxRecoveryAttempts ≤ item.attempts ∨ item.state = .preserved ∧ item.evidenceItemId = none)

instance (item : Item) : Decidable (GivesUp item) := by
  unfold GivesUp
  infer_instance

/-- The job at a place that is being attempted, and its item. -/
def State.fetching? (s : State) (i : ℕ) : Option (Job × ItemKey JsString) := do
  let job ← s.jobs[i]?
  let key ← job.fetchKey? tenantId collectionId
  some (job, key)

/-- A job comes to another stage. -/
def State.setStage (s : State) (i : ℕ) (job : Job) (stage : Stage) : State :=
  { s with jobs := s.jobs.set i { job with stage } }

/-- An attempt fails. -/
def State.failJob (s : State) (i : ℕ) (job : Job) (unrecoverable : Bool) : State :=
  s.setStage i { job with attemptsMade := job.attemptsMade + 1 }
    (job.failedStage unrecoverable (Recorded isUuid tenantId collectionId s.items job))

/-- Nothing more is done about a job. -/
def State.bury (s : State) (i : ℕ) (job : Job) : State :=
  s.setStage i job (.dead (Recorded isUuid tenantId collectionId s.items job))

/-- The state after an event. -/
def step (s : State) : Event → Option State
  | .listed key evidence =>
    if s.items.any fun item => item.key = key then none
    else
      match evidence with
      | none => some { s with items := s.items ++ [⟨key, .discovered, 0, none⟩] }
      | some row =>
        some { s with
          items := s.items ++ [⟨key, .preserved, 0, some row.id⟩]
          evidence := s.evidence ++ [row] }
  | .enqueued queue data => some { s with jobs := s.jobs ++ [⟨queue, data, 0, .waiting⟩] }
  | .status status => some { s with status }
  | .loaded i =>
    match s.fetching? tenantId collectionId i with
    | some (job, key) =>
      if job.stage ≠ .waiting ∨ ¬ Accepts isUuid job.queue job.data then none
      else
        match s.items.find? fun item => item.key = key with
        | none => some (s.setStage i job .done)
        | some item =>
          if Ledger.isFetched item.state ∨ s.status ≠ .fetching then some (s.setStage i job .done)
          else some (s.setStage i job (.loaded item.attempts))
    | none => none
  | .started i =>
    match s.fetching? tenantId collectionId i with
    | some (job, key) =>
      match job.stage with
      | .loaded attempts =>
        some { s.setStage i job (.started (attempts + 1)) with
          items := updateItems (fun item => item.key = key)
            (fun item => { item with state := .fetching, attempts := item.attempts + 1 }) s.items }
      | _ => none
    | none => none
  | .fetched i evidence =>
    match s.fetching? tenantId collectionId i with
    | some (job, key) =>
      match job.stage with
      | .started _ =>
        some { s.setStage i job .done with
          items := updateItems (fun item => item.key = key)
            (fun item => { item with state := .preserved, evidenceItemId := some evidence.id })
            s.items
          evidence := s.evidence ++ [evidence] }
      | _ => none
    | none => none
  | .skipped i =>
    match s.fetching? tenantId collectionId i with
    | some (job, key) =>
      match job.stage with
      | .started _ =>
        some { s.setStage i job .done with
          items := setState (fun item => item.key = key) .skipped s.items
          exceptions := s.exceptions ++ [exceptionOf key] }
      | _ => none
    | none => none
  | .failed i unrecoverable =>
    match s.fetching? tenantId collectionId i with
    | some (job, key) =>
      match job.stage with
      | .started attemptNumber =>
        let t := { s with
          items := setState (fun item => item.key = key) .failed s.items
          exceptions := s.exceptions ++ [exceptionOf key] }
        if maxItemAttempts ≤ attemptNumber then
          some { t.setStage i job .done with failures := s.failures ++ [incrementOf key] }
        else some (t.failJob isUuid tenantId collectionId i job unrecoverable)
      | _ => none
    | none => none
  | .completed i =>
    match s.jobs[i]? with
    | some job =>
      if job.queue ≠ .collectionFetchItem ∧ job.stage = .waiting then some (s.setStage i job .done)
      else none
    | none => none
  | .threw i unrecoverable =>
    match s.jobs[i]? with
    | some job =>
      if job.IsLive then some (s.failJob isUuid tenantId collectionId i job unrecoverable) else none
    | none => none
  | .stalled i =>
    match s.jobs[i]? with
    | some job => if job.IsLive then some (s.setStage i job .waiting) else none
    | none => none
  | .killed i =>
    match s.jobs[i]? with
    | some job => if job.IsLive then some (s.setStage i job .dying) else none
    | none => none
  | .handled i =>
    match s.jobs[i]? with
    | some job =>
      if job.stage ≠ .dying then none
      else
        match failureTargetFor job.queue job.data with
        | some target =>
          some ((recordTerminalFailure tenantId collectionId s target).bury isUuid tenantId
            collectionId i job)
        | none => some (s.bury isUuid tenantId collectionId i job)
    | none => none
  | .unhandled i =>
    match s.jobs[i]? with
    | some job =>
      if job.stage = .dying then some (s.bury isUuid tenantId collectionId i job) else none
    | none => none
  | .indexed evidenceItemId =>
    some { s with
      items := setState
        (fun item => item.evidenceItemId = some evidenceItemId ∧ Ledger.isIndexable item.state)
        .indexed s.items }
  | .rejected evidenceItemId =>
    match s.evidence.find? fun row => row.id = evidenceItemId with
    | some row =>
      let hit (item : Item) : Bool :=
        item.evidenceItemId = some evidenceItemId ∧ Ledger.isIndexable item.state
      some { s with
        items := setState hit .failed s.items
        failures := s.failures ++ rejectionIncrements collectionId row (s.items.filter hit) }
    | none => none
  | .extracted key => some { s with items := setState (fun item => item.key = key) .processed s.items }
  | .swept key =>
    if ¬ s.status.isSwept then none
    else
      match s.items.find? fun item => item.key = key with
      | some item =>
        if ¬ Ledger.isInFlight item.state then none
        else if GivesUp item then
          some { s with
            items := setState (fun item => item.key = key) .failed s.items
            exceptions := s.exceptions ++ [exceptionOf key] }
        else
          some { s with
            items := updateItems (fun item => item.key = key)
              (fun item => { item with attempts := item.attempts + 1 }) s.items
            jobs := s.jobs ++ [recoveryJob tenantId collectionId s item] }
      | none => none

/-- A collection before anything was listed. -/
def created : State := ⟨.fetching, [], [], [], [], []⟩

/-! ## Consistency -/

/-- A retry of an item is scheduled, or under way. -/
def Scheduled (jobs : List Job) (key : ItemKey JsString) : Prop :=
  ∃ job ∈ jobs, job.fetchKey? tenantId collectionId = some key ∧ job.IsLive

instance (jobs : List Job) (key : ItemKey JsString) :
    Decidable (Scheduled tenantId collectionId jobs key) := by
  unfold Scheduled
  infer_instance

/-- An exception names the item. -/
def Named (s : State) (key : ItemKey JsString) : Prop := exceptionOf key ∈ s.exceptions

/-- The item is counted in the failures. -/
def Counted (s : State) (key : ItemKey JsString) : Prop := ∃ entry ∈ s.failures, entry.item = key

instance (s : State) (key : ItemKey JsString) : Decidable (Named s key) := by
  unfold Named
  infer_instance

instance (s : State) (key : ItemKey JsString) : Decidable (Counted s key) := by
  unfold Counted
  infer_instance

/-- A failed item is retried, or it is accounted for. -/
def Accounted (s : State) (key : ItemKey JsString) : Prop :=
  Scheduled tenantId collectionId s.jobs key ∨ Named s key ∧ Counted s key

instance (s : State) (key : ItemKey JsString) :
    Decidable (Accounted tenantId collectionId s key) := by
  unfold Accounted
  infer_instance

/-- Every failed item without a retry has an exception and is counted, and every dead job is
recorded against its items. -/
structure Consistent (s : State) : Prop where
  items : ∀ item ∈ s.items, item.state = .failed → Accounted tenantId collectionId s item.key
  jobs : ∀ job ∈ s.jobs, job.stage ≠ .dead false

/-- An attempt that fails is followed by another. -/
def Retries (job : Job) (unrecoverable : Bool) : Prop :=
  unrecoverable = false ∧ job.attemptsMade + 1 < maxJobAttempts

instance (job : Job) (unrecoverable : Bool) : Decidable (Retries job unrecoverable) := by
  unfold Retries
  infer_instance

/-- Without a job, its item is accounted for if it is failed. -/
def Freed (s : State) (i : ℕ) : Prop :=
  ∀ job ∈ s.jobs[i]?, ∀ item ∈ s.items, job.fetchKey? tenantId collectionId = some item.key →
    item.state = .failed → Accounted tenantId collectionId (s.setStage i job .done) item.key

instance (s : State) (i : ℕ) : Decidable (Freed tenantId collectionId s i) := by
  unfold Freed
  infer_instance

/-- `recordTerminalFailure` leaves no failed item unaccounted for, and no dead job unrecorded. -/
def Handles (s : State) (job : Job) : Option FailureTarget → Prop
  | some (.collectionItem _ _ _) | some (.pstExtract _ _ _ _) | some (.forensicImport _ _) => True
  | some (.evidenceItem tenant evidenceItemId) =>
    tenant = tenantId → ∀ item ∈ s.items, item.evidenceItemId = some evidenceItemId →
      ¬ Ledger.isSettled item.state → Accounted tenantId collectionId s item.key
  | none => Recorded isUuid tenantId collectionId s.items job

instance (s : State) (job : Job) :
    (target : Option FailureTarget) → Decidable (Handles isUuid tenantId collectionId s job target)
  | some (.collectionItem _ _ _) | some (.pstExtract _ _ _ _) | some (.forensicImport _ _) =>
    isTrue trivial
  | some (.evidenceItem tenant evidenceItemId) => inferInstanceAs <| Decidable
      (tenant = tenantId → ∀ item ∈ s.items, item.evidenceItemId = some evidenceItemId →
        ¬ Ledger.isSettled item.state → Accounted tenantId collectionId s item.key)
  | none => inferInstanceAs <| Decidable (Recorded isUuid tenantId collectionId s.items job)

/-- The step leaves no failed item unaccounted for, and no dead job unrecorded:

* a job that ends does not leave a failed item behind that is not accounted for;
* an attempt that fails is the last one of its item, or it is followed by another, or the item is
  counted already;
* a dead job has a target that is recorded with an exception and a count, or its items are settled;
  a target that is a piece of evidence has items that are accounted for already;
* a rejected document has items that an exception names already, and a custodian to count for;
* an item that the sweeper gives up is counted already. -/
def Calm (s : State) : Event → Prop
  | .loaded i => s.status = .fetching ∨ Freed tenantId collectionId s i
  | .failed i unrecoverable =>
    ∀ found ∈ s.fetching? tenantId collectionId i,
      (∀ attemptNumber ∈ found.1.stage.attempt?, maxItemAttempts ≤ attemptNumber) ∨
        Retries found.1 unrecoverable ∨ Counted s found.2 ∨
        Scheduled tenantId collectionId (s.setStage i found.1 .done).jobs found.2
  | .threw i unrecoverable =>
    ∀ job ∈ s.jobs[i]?, Retries job unrecoverable ∨ Freed tenantId collectionId s i ∧
      (job.attemptsMade + 1 < maxJobAttempts →
        Recorded isUuid tenantId collectionId s.items job)
  | .killed i => Freed tenantId collectionId s i
  | .handled i =>
    ∀ job ∈ s.jobs[i]?,
      Handles isUuid tenantId collectionId s job (failureTargetFor job.queue job.data)
  | .unhandled i => ∀ job ∈ s.jobs[i]?, Recorded isUuid tenantId collectionId s.items job
  | .rejected evidenceItemId =>
    ∀ row ∈ s.evidence.find? fun row => row.id = evidenceItemId,
      ∀ item ∈ s.items, item.evidenceItemId = some evidenceItemId → Ledger.isIndexable item.state →
        Scheduled tenantId collectionId s.jobs item.key ∨ Named s item.key ∧
          (Counted s item.key ∨ row.custodianId.isSome ∧ row.collectionId = some collectionId)
  | .swept key =>
    ∀ item ∈ s.items.find? fun item => item.key = key, GivesUp item →
      Scheduled tenantId collectionId s.jobs key ∨ Counted s key
  | .listed _ _ | .enqueued _ _ | .status _ | .started _ | .fetched _ _ | .skipped _
  | .completed _ | .stalled _ | .indexed _ | .extracted _ => True

instance (s : State) : (e : Event) → Decidable (Calm isUuid tenantId collectionId s e)
  | .loaded i => inferInstanceAs <| Decidable
      (s.status = .fetching ∨ Freed tenantId collectionId s i)
  | .failed i unrecoverable => inferInstanceAs <| Decidable
      (∀ found ∈ s.fetching? tenantId collectionId i,
        (∀ attemptNumber ∈ found.1.stage.attempt?, maxItemAttempts ≤ attemptNumber) ∨
          Retries found.1 unrecoverable ∨ Counted s found.2 ∨
          Scheduled tenantId collectionId (s.setStage i found.1 .done).jobs found.2)
  | .threw i unrecoverable => inferInstanceAs <| Decidable
      (∀ job ∈ s.jobs[i]?, Retries job unrecoverable ∨ Freed tenantId collectionId s i ∧
        (job.attemptsMade + 1 < maxJobAttempts →
          Recorded isUuid tenantId collectionId s.items job))
  | .killed i => inferInstanceAs <| Decidable (Freed tenantId collectionId s i)
  | .handled i => inferInstanceAs <| Decidable
      (∀ job ∈ s.jobs[i]?,
        Handles isUuid tenantId collectionId s job (failureTargetFor job.queue job.data))
  | .unhandled i => inferInstanceAs <| Decidable
      (∀ job ∈ s.jobs[i]?, Recorded isUuid tenantId collectionId s.items job)
  | .rejected evidenceItemId => inferInstanceAs <| Decidable
      (∀ row ∈ s.evidence.find? fun row => row.id = evidenceItemId,
        ∀ item ∈ s.items, item.evidenceItemId = some evidenceItemId →
          Ledger.isIndexable item.state →
          Scheduled tenantId collectionId s.jobs item.key ∨ Named s item.key ∧
            (Counted s item.key ∨ row.custodianId.isSome ∧ row.collectionId = some collectionId))
  | .swept key => inferInstanceAs <| Decidable
      (∀ item ∈ s.items.find? fun item => item.key = key, GivesUp item →
        Scheduled tenantId collectionId s.jobs key ∨ Counted s key)
  | .listed _ _ | .enqueued _ _ | .status _ | .started _ | .fetched _ _ | .skipped _
  | .completed _ | .stalled _ | .indexed _ | .extracted _ => isTrue trivial

end

/-! ## Steps -/

variable {isUuid : JsString → Bool} {tenantId collectionId : JsString}

theorem mem_updateItems {p : Item → Bool} {f : Item → Item} {items : List Item} {item : Item} :
    item ∈ updateItems p f items ↔
      ∃ old ∈ items, (p old ∧ item = f old) ∨ (p old = false ∧ item = old) := by
  unfold updateItems
  rw [List.mem_map]
  refine exists_congr fun old => and_congr_right fun _ => ?_
  by_cases hp : p old = true
  · simp [hp, eq_comm]
  · simp [hp, eq_comm]

/-- A job that goes on being attempted, or that is about something else, can come to any stage. -/
theorem Scheduled.set {jobs : List Job} {key : ItemKey JsString} {i : ℕ} {job job' : Job}
    (h : Scheduled tenantId collectionId jobs key) (hi : jobs[i]? = some job)
    (hjob : job.fetchKey? tenantId collectionId = some key →
      job'.fetchKey? tenantId collectionId = some key ∧ job'.IsLive) :
    Scheduled tenantId collectionId (jobs.set i job') key :=
  exists_mem_set hi (fun hlive => hjob hlive.1) h

/-- What is accounted for stays so while nothing is taken away. -/
theorem Accounted.mono {s t : State} {key : ItemKey JsString}
    (h : Accounted tenantId collectionId s key)
    (hjobs : Scheduled tenantId collectionId s.jobs key →
      Scheduled tenantId collectionId t.jobs key)
    (hexceptions : s.exceptions ⊆ t.exceptions) (hfailures : s.failures ⊆ t.failures) :
    Accounted tenantId collectionId t key := by
  rcases h with h | ⟨hnamed, entry, hentry, hitem⟩
  · exact Or.inl (hjobs h)
  · exact Or.inr ⟨hexceptions hnamed, entry, hfailures hentry, hitem⟩

theorem fetching_eq_some {s : State} {i : ℕ} {job : Job} {key : ItemKey JsString} :
    s.fetching? tenantId collectionId i = some (job, key) ↔
      s.jobs[i]? = some job ∧ job.fetchKey? tenantId collectionId = some key := by
  unfold State.fetching?
  cases hjob : s.jobs[i]? with
  | none => simp
  | some found =>
    cases hkey : found.fetchKey? tenantId collectionId with
    | none =>
      simp only [Option.bind_eq_bind, Option.bind_some, hkey, Option.bind_none]
      refine ⟨?_, ?_⟩
      · rintro ⟨⟩
      · rintro ⟨hfound, h⟩
        obtain rfl := Option.some.inj hfound
        rw [hkey] at h
        cases h
    | some k =>
      simp only [Option.bind_eq_bind, Option.bind_some, hkey, Option.some.injEq, Prod.mk.injEq]
      refine ⟨?_, ?_⟩
      · rintro ⟨rfl, rfl⟩
        exact ⟨rfl, hkey⟩
      · rintro ⟨rfl, h⟩
        rw [hkey] at h
        exact ⟨rfl, Option.some.inj h⟩

/-- The items of a collection have different keys, and the collection is consistent. -/
structure Sound (tenantId collectionId : JsString) (s : State) : Prop
    extends Consistent tenantId collectionId s where
  unique : (s.items.map Item.key).Nodup

theorem keys_updateItems {p : Item → Bool} {f : Item → Item} {items items' : List Item}
    (h : items' = updateItems p f items) (hf : ∀ item, (f item).key = item.key) :
    items'.map Item.key = items.map Item.key := by
  rw [h]
  unfold updateItems
  rw [List.map_map]
  refine List.map_congr_left fun item _ => ?_
  by_cases hp : p item = true
  · simp [hp, hf]
  · simp [hp]

/-- A job comes to another stage: the failed items are accounted for as before if it is live there,
or if it was not needed. -/
theorem Consistent.setJob {s : State} (h : Consistent tenantId collectionId s) {i : ℕ}
    {job job' : Job} (hi : s.jobs[i]? = some job)
    (hkey : job'.fetchKey? tenantId collectionId = job.fetchKey? tenantId collectionId)
    (hlive : job'.IsLive ∨ Freed tenantId collectionId s i) (hdead : job'.stage ≠ .dead false) :
    Consistent tenantId collectionId { s with jobs := s.jobs.set i job' } where
  items := by
    intro item hitem hfailed
    by_cases hitemKey : job.fetchKey? tenantId collectionId = some item.key
    · rcases hlive with hlive | hfreed
      · refine (h.items item hitem hfailed).mono (fun hs => hs.set hi fun _ => ?_)
          (List.Subset.refl _) (List.Subset.refl _)
        exact ⟨hkey.trans hitemKey, hlive⟩
      · -- whatever the retry is, it is not this job
        refine (hfreed job hi item hitem hitemKey hfailed).mono (fun hs => ?_)
          (List.Subset.refl _) (List.Subset.refl _)
        exact exists_mem_set_of_set (fun hdone => hdone.2) hs job'
    · refine (h.items item hitem hfailed).mono (fun hs => hs.set hi fun hk => ?_)
        (List.Subset.refl _) (List.Subset.refl _)
      exact absurd hk hitemKey
  jobs := forall_mem_set h.jobs hdead

/-- Items change, none of which is failed afterwards unless it is accounted for. -/
theorem Consistent.setItems {s t : State} (h : Consistent tenantId collectionId s)
    {p : Item → Bool} (f : Item → Item) (hf : ∀ item, (f item).key = item.key)
    (hitems : t.items = updateItems p f s.items)
    (hjobs : ∀ key, Scheduled tenantId collectionId s.jobs key →
      Scheduled tenantId collectionId t.jobs key)
    (hexceptions : s.exceptions ⊆ t.exceptions) (hfailures : s.failures ⊆ t.failures)
    (hnew : ∀ item ∈ s.items, p item → (f item).state = .failed →
      Accounted tenantId collectionId t item.key) :
    ∀ item ∈ t.items, item.state = .failed → Accounted tenantId collectionId t item.key := by
  intro item hitem hfailed
  rw [hitems] at hitem
  obtain ⟨old, hold, ⟨hp, rfl⟩ | ⟨-, rfl⟩⟩ := mem_updateItems.mp hitem
  · rw [hf]
    exact hnew old hold hp hfailed
  · exact (h.items item hold hfailed).mono (hjobs item.key) hexceptions hfailures

/-- Items come to another state: if it is `failed`, they are accounted for. -/
theorem Consistent.setStates {s t : State} (h : Consistent tenantId collectionId s)
    {p : Item → Bool} {state : ItemState} (hitems : t.items = setState p state s.items)
    (hjobs : ∀ key, Scheduled tenantId collectionId s.jobs key →
      Scheduled tenantId collectionId t.jobs key)
    (hexceptions : s.exceptions ⊆ t.exceptions) (hfailures : s.failures ⊆ t.failures)
    (hnew : ∀ item ∈ s.items, p item → state = .failed →
      Accounted tenantId collectionId t item.key) :
    ∀ item ∈ t.items, item.state = .failed → Accounted tenantId collectionId t item.key :=
  h.setItems (fun item => { item with state }) (fun _ => rfl) hitems hjobs hexceptions hfailures
    hnew

/-- The attempt of an item ends, and the item with it. -/
theorem Consistent.endFetch {s t : State} (h : Consistent tenantId collectionId s) {i : ℕ}
    {job job' : Job} {key : ItemKey JsString} (hi : s.jobs[i]? = some job)
    (hjob : job.fetchKey? tenantId collectionId = some key) (f : Item → Item)
    (hf : ∀ item, (f item).key = item.key) (hdead : job'.stage ≠ .dead false)
    (hitems : t.items = updateItems (fun item => item.key = key) f s.items)
    (hjobs : t.jobs = s.jobs.set i job')
    (hexceptions : s.exceptions ⊆ t.exceptions) (hfailures : s.failures ⊆ t.failures)
    (hnew : (∃ item, (f item).state = .failed) → Accounted tenantId collectionId t key) :
    Consistent tenantId collectionId t where
  items := by
    intro item hitem hfailed
    rw [hitems] at hitem
    obtain ⟨old, hold, ⟨hp, rfl⟩ | ⟨hp, rfl⟩⟩ := mem_updateItems.mp hitem
    · rw [hf, of_decide_eq_true hp]
      exact hnew ⟨old, hfailed⟩
    · have hne : item.key ≠ key := of_decide_eq_false hp
      refine (h.items item hold hfailed).mono (fun hs => ?_) hexceptions hfailures
      rw [hjobs]
      refine hs.set hi fun hk => ?_
      rw [hjob] at hk
      exact absurd (Option.some.inj hk).symm hne
  jobs := by
    rw [hjobs]
    exact forall_mem_set h.jobs hdead

theorem Sound.eq_of_key_eq {s : State} (h : Sound tenantId collectionId s) {a b : Item}
    (ha : a ∈ s.items) (hb : b ∈ s.items) (hkey : a.key = b.key) : a = b :=
  List.inj_on_of_nodup_map h.unique ha hb hkey

/-- The job of an item that is not failed is not needed. -/
theorem freed_of_key {s : State} {i : ℕ} {job : Job} {key : ItemKey JsString}
    (hi : s.jobs[i]? = some job) (hjob : job.fetchKey? tenantId collectionId = some key)
    (hitems : ∀ item ∈ s.items, item.key = key → item.state ≠ .failed) :
    Freed tenantId collectionId s i := by
  intro other hother item hitem hkey hfailed
  have hother' : s.jobs[i]? = some other := hother
  rw [hi] at hother'
  obtain rfl := Option.some.inj hother'
  rw [hjob] at hkey
  exact absurd hfailed (hitems item hitem (Option.some.inj hkey).symm)

/-- A job that fails and is not attempted again: its items are settled, or someone will look. -/
theorem consistent_failJob {s : State} (h : Consistent tenantId collectionId s) {i : ℕ} {job : Job}
    (hi : s.jobs[i]? = some job) {unrecoverable : Bool}
    (hcalm : Retries job unrecoverable ∨ Freed tenantId collectionId s i ∧
      (job.attemptsMade + 1 < maxJobAttempts →
        Recorded isUuid tenantId collectionId s.items job)) :
    Consistent tenantId collectionId (s.failJob isUuid tenantId collectionId i job unrecoverable) := by
  refine h.setJob hi rfl ?_ ?_
  · refine hcalm.imp (fun hretries => ?_) And.left
    obtain ⟨rfl, hlt⟩ := hretries
    simp [Job.IsLive, Job.failedStage, Nat.not_le.mpr hlt]
  · rcases hcalm with ⟨rfl, hlt⟩ | ⟨-, hrecorded⟩
    · simp [Job.failedStage, Nat.not_le.mpr hlt]
    · unfold Job.failedStage
      split
      · simp
      · next hlt =>
        split
        · simp [hrecorded (Nat.lt_of_not_le hlt)]
        · simp

theorem isSettled_setState {p : Item → Bool} {items : List Item} {item : Item}
    (hitem : item ∈ setState p .failed items) (hp : ∀ old ∈ items, old.key = item.key →
      old.evidenceItemId = item.evidenceItemId → ¬ Ledger.isSettled old.state → p old) :
    Ledger.isSettled item.state := by
  obtain ⟨old, hold, ⟨-, rfl⟩ | ⟨hnot, rfl⟩⟩ := mem_updateItems.mp hitem
  · rfl
  · by_contra hsettled
    rw [hp item hold rfl rfl hsettled] at hnot
    cases hnot

/-! ## Dead jobs -/

/-- The target names the item. -/
def FailureTarget.Names (tenantId collectionId : JsString) (item : Item) : FailureTarget → Prop
  | .collectionItem tenant collection key =>
    tenant = tenantId ∧ collection = collectionId ∧ item.key = key
  | .pstExtract tenant collection custodianId evidenceItemId =>
    tenant = tenantId ∧ collection = collectionId ∧
      item.key = containerKey custodianId evidenceItemId
  | .evidenceItem tenant evidenceItemId =>
    tenant = tenantId ∧ item.evidenceItemId = some evidenceItemId
  | .forensicImport _ _ => False

theorem get_of_str {data : Payload} {name value : JsString} (h : data.str name = some value) :
    data.texts.get? name = some value := (Option.filter_eq_some_iff.mp h).1

theorem fetchKey_eq_some {job : Job} {key : ItemKey JsString}
    (h : job.fetchKey? tenantId collectionId = some key) :
    job.queue = .collectionFetchItem ∧ job.data.texts.get? (js "tenantId") = some tenantId ∧
      job.data.texts.get? (js "collectionId") = some collectionId ∧
      job.data.texts.get? (js "custodianId") = some key.custodianId ∧
      (job.data.texts.get? (js "source")).bind source? = some key.source ∧
      job.data.texts.get? (js "providerItemId") = some key.providerItemId := by
  unfold Job.fetchKey? at h
  split at h
  · next hjob =>
    obtain ⟨custodianId, hcustodian, h⟩ := Option.bind_eq_some_iff.mp h
    obtain ⟨source, hsource, h⟩ := Option.bind_eq_some_iff.mp h
    obtain ⟨providerItemId, hprovider, h⟩ := Option.bind_eq_some_iff.mp h
    obtain rfl := Option.some.inj h
    exact ⟨hjob.1, hjob.2.1, hjob.2.2, hcustodian, hsource, hprovider⟩
  · cases h

theorem containerKey_eq_some {job : Job} {key : ItemKey JsString}
    (h : job.containerKey? tenantId collectionId = some key) :
    ∃ custodianId evidenceItemId, job.queue = .pstExtract ∧
      job.data.texts.get? (js "tenantId") = some tenantId ∧
      job.data.texts.get? (js "collectionId") = some collectionId ∧
      job.data.texts.get? (js "custodianId") = some custodianId ∧
      job.data.texts.get? (js "evidenceItemId") = some evidenceItemId ∧
      containerKey custodianId evidenceItemId = key := by
  unfold Job.containerKey? at h
  split at h
  · next hjob =>
    obtain ⟨custodianId, hcustodian, h⟩ := Option.bind_eq_some_iff.mp h
    obtain ⟨evidenceItemId, hevidence, h⟩ := Option.bind_eq_some_iff.mp h
    exact ⟨custodianId, evidenceItemId, hjob.1, hjob.2.1, hjob.2.2, hcustodian, hevidence,
      Option.some.inj h⟩
  · cases h

/-- A job of `fetch-item` is about its item only. -/
theorem key_of_about {job : Job} {item : Item} {key : ItemKey JsString}
    (hkey : job.fetchKey? tenantId collectionId = some key)
    (habout : job.About tenantId collectionId item) : item.key = key := by
  have hqueue := (fetchKey_eq_some hkey).1
  rcases habout with hfetch | hcontainer | ⟨id, hid, -⟩
  · rw [hkey] at hfetch
    exact (Option.some.inj hfetch).symm
  · obtain ⟨custodianId, evidenceItemId, hpst, -⟩ := containerKey_eq_some hcontainer
    rw [hqueue] at hpst
    cases hpst
  · have hid' : job.evidenceId? tenantId = some id := hid
    simp [Job.evidenceId?, hqueue] at hid'

theorem source_of_str {data : Payload} {source source' : Source}
    (h : (data.str (js "source")).bind source? = some source)
    (h' : (data.texts.get? (js "source")).bind source? = some source') : source = source' := by
  obtain ⟨text, htext, hsource⟩ := Option.bind_eq_some_iff.mp h
  rw [get_of_str htext] at h'
  exact Option.some.inj (hsource.symm.trans h')

/-- What a job is about is what its target names. -/
theorem names_of_about {job : Job} {item : Item} {target : FailureTarget}
    (htarget : failureTargetFor job.queue job.data = some target)
    (habout : job.About tenantId collectionId item) :
    target.Names tenantId collectionId item := by
  unfold failureTargetFor at htarget
  split at htarget
  · cases htarget
  · obtain ⟨tenant, htenant, htarget⟩ := Option.bind_eq_some_iff.mp htarget
    rcases habout with hfetch | hcontainer | ⟨id, hid, hevidence⟩
    · obtain ⟨hqueue, hten, hcol, hcus, hsrc, hpro⟩ := fetchKey_eq_some hfetch
      rw [hqueue] at htarget
      obtain ⟨collection, hcollection, htarget⟩ := Option.bind_eq_some_iff.mp htarget
      obtain ⟨custodian, hcustodian, htarget⟩ := Option.bind_eq_some_iff.mp htarget
      obtain ⟨provider, hprovider, htarget⟩ := Option.bind_eq_some_iff.mp htarget
      obtain ⟨source, hsource, htarget⟩ := Option.bind_eq_some_iff.mp htarget
      split at htarget
      · cases htarget
      · obtain rfl := Option.some.inj htarget
        obtain rfl := Option.some.inj ((get_of_str htenant).symm.trans hten)
        obtain rfl := Option.some.inj ((get_of_str hcollection).symm.trans hcol)
        obtain rfl := Option.some.inj ((get_of_str hcustodian).symm.trans hcus)
        obtain rfl := Option.some.inj ((get_of_str hprovider).symm.trans hpro)
        obtain rfl := source_of_str hsource hsrc
        exact ⟨rfl, rfl, rfl⟩
    · obtain ⟨cus, ev, hqueue, hten, hcol, hcus, hev, hkey⟩ := containerKey_eq_some hcontainer
      rw [hqueue] at htarget
      obtain ⟨collection, hcollection, htarget⟩ := Option.bind_eq_some_iff.mp htarget
      obtain ⟨custodian, hcustodian, htarget⟩ := Option.bind_eq_some_iff.mp htarget
      obtain ⟨evidence, hevidence, htarget⟩ := Option.bind_eq_some_iff.mp htarget
      obtain rfl := Option.some.inj htarget
      obtain rfl := Option.some.inj ((get_of_str htenant).symm.trans hten)
      obtain rfl := Option.some.inj ((get_of_str hcollection).symm.trans hcol)
      obtain rfl := Option.some.inj ((get_of_str hcustodian).symm.trans hcus)
      obtain rfl := Option.some.inj ((get_of_str hevidence).symm.trans hev)
      exact ⟨rfl, rfl, hkey.symm⟩
    · have hid' : job.evidenceId? tenantId = some id := hid
      unfold Job.evidenceId? at hid'
      split at hid'
      · next hjob =>
        obtain ⟨hqueue, hten⟩ := hjob
        obtain rfl := Option.some.inj ((get_of_str htenant).symm.trans hten)
        -- of these queues two have a target
        have htwo : ∀ evidenceItemId, job.data.str (js "evidenceItemId") = some evidenceItemId →
            FailureTarget.Names tenant collectionId item (.evidenceItem tenant evidenceItemId) := by
          intro evidenceItemId hevidenceItemId
          obtain rfl := Option.some.inj ((get_of_str hevidenceItemId).symm.trans hid')
          exact ⟨rfl, hevidence⟩
        simp only [List.mem_cons, List.not_mem_nil, or_false] at hqueue
        rcases hqueue with hqueue | hqueue | hqueue | hqueue | hqueue | hqueue | hqueue <;>
          rw [hqueue] at htarget
        · obtain ⟨evidenceItemId, hevidenceItemId, htarget⟩ := Option.bind_eq_some_iff.mp htarget
          obtain rfl := Option.some.inj htarget
          exact htwo evidenceItemId hevidenceItemId
        · obtain ⟨evidenceItemId, hevidenceItemId, htarget⟩ := Option.bind_eq_some_iff.mp htarget
          obtain rfl := Option.some.inj htarget
          exact htwo evidenceItemId hevidenceItemId
        all_goals cases htarget
      · cases hid'

/-- `recordTerminalFailure` leaves what its target names settled. -/
theorem isSettled_recordTerminalFailure {s : State} {target : FailureTarget} {item : Item}
    (hitem : item ∈ (recordTerminalFailure tenantId collectionId s target).items)
    (hnames : target.Names tenantId collectionId item) : Ledger.isSettled item.state := by
  have hfail : ∀ key, item ∈ (s.failItem key).items → item.key = key →
      Ledger.isSettled item.state := by
    intro key hitem hkey
    unfold State.failItem at hitem
    split at hitem
    · refine isSettled_setState hitem fun old _ hold _ hsettled => ?_
      exact decide_eq_true ⟨hold.trans hkey, hsettled⟩
    · next hnone =>
      by_contra hsettled
      exact hnone (List.any_eq_true.mpr ⟨item, hitem, decide_eq_true ⟨hkey, hsettled⟩⟩)
  cases target with
  | collectionItem tenant collection key =>
    obtain ⟨rfl, rfl, hkey⟩ := hnames
    rw [recordTerminalFailure, if_pos ⟨rfl, rfl⟩] at hitem
    exact hfail key hitem hkey
  | pstExtract tenant collection custodianId evidenceItemId =>
    obtain ⟨rfl, rfl, hkey⟩ := hnames
    rw [recordTerminalFailure, if_pos ⟨rfl, rfl⟩] at hitem
    exact hfail _ hitem hkey
  | evidenceItem tenant evidenceItemId =>
    obtain ⟨rfl, hevidence⟩ := hnames
    rw [recordTerminalFailure, if_pos rfl] at hitem
    refine isSettled_setState hitem fun old _ _ hold hsettled => ?_
    exact decide_eq_true ⟨hold.trans hevidence, hsettled⟩
  | forensicImport tenant importId => exact hnames.elim

theorem consistent_failItem {s : State} (h : Consistent tenantId collectionId s)
    (key : ItemKey JsString) : Consistent tenantId collectionId (s.failItem key) := by
  unfold State.failItem
  split
  · refine ⟨?_, h.jobs⟩
    refine h.setStates rfl (fun _ => id) (List.subset_append_left _ _)
      (List.subset_append_left _ _) fun item _ hp _ => Or.inr ?_
    have hkey : item.key = key := (of_decide_eq_true hp).1
    rw [hkey]
    exact ⟨List.mem_append_right _ (List.mem_singleton.mpr rfl), incrementOf key,
      List.mem_append_right _ (List.mem_singleton.mpr rfl), rfl⟩
  · exact h

/-- The handler of a dead job keeps the collection consistent, if the items of its evidence are
accounted for. -/
theorem consistent_recordTerminalFailure {s : State} (h : Consistent tenantId collectionId s)
    {target : FailureTarget}
    (hevidence : ∀ evidenceItemId, target = .evidenceItem tenantId evidenceItemId →
      ∀ item ∈ s.items, item.evidenceItemId = some evidenceItemId →
        ¬ Ledger.isSettled item.state → Accounted tenantId collectionId s item.key) :
    Consistent tenantId collectionId (recordTerminalFailure tenantId collectionId s target) := by
  cases target with
  | collectionItem tenant collection key =>
    rw [recordTerminalFailure]
    split
    · exact consistent_failItem h key
    · exact h
  | pstExtract tenant collection custodianId evidenceItemId =>
    rw [recordTerminalFailure]
    split
    · exact consistent_failItem h _
    · exact h
  | evidenceItem tenant evidenceItemId =>
    rw [recordTerminalFailure]
    split
    · next htenant =>
      subst htenant
      refine ⟨?_, h.jobs⟩
      refine h.setStates rfl (fun _ => id) (List.Subset.refl _)
        (List.Subset.refl _) fun item hitem hp _ => ?_
      obtain ⟨hid, hsettled⟩ := of_decide_eq_true hp
      exact hevidence evidenceItemId rfl item hitem hid hsettled
    · exact h
  | forensicImport tenant importId => exact h

theorem jobs_recordTerminalFailure (s : State) (target : FailureTarget) :
    (recordTerminalFailure tenantId collectionId s target).jobs = s.jobs := by
  have hfail : ∀ key, (s.failItem key).jobs = s.jobs := by
    intro key
    unfold State.failItem
    split <;> rfl
  cases target <;> rw [recordTerminalFailure] <;> try split
  all_goals first | rfl | exact hfail _

theorem consistent_bury {s : State} (h : Consistent tenantId collectionId s) {i : ℕ} {job : Job}
    (hi : s.jobs[i]? = some job) (hlive : ¬ job.IsLive)
    (hrecorded : Recorded isUuid tenantId collectionId s.items job) :
    Consistent tenantId collectionId (s.bury isUuid tenantId collectionId i job) := by
  refine ⟨fun item hitem hfailed => ?_, forall_mem_set h.jobs ?_⟩
  · refine (h.items item hitem hfailed).mono (fun hs => ?_) (List.Subset.refl _)
      (List.Subset.refl _)
    exact exists_mem_set hi (fun hscheduled => absurd hscheduled.2 hlive) hs
  · simp [hrecorded]

/-! ## One step -/

theorem not_isLive_of_dying {job : Job} (h : job.stage = .dying) : ¬ job.IsLive := by
  unfold Job.IsLive
  rw [h]
  exact not_false

theorem consistent_handled {s s' : State} {i : ℕ} (h : Consistent tenantId collectionId s)
    (hcalm : Calm isUuid tenantId collectionId s (.handled i))
    (hstep : step isUuid tenantId collectionId s (.handled i) = some s') :
    Consistent tenantId collectionId s' := by
  delta step at hstep
  dsimp only at hstep
  split at hstep
  · next job hi =>
    have hcalm' := hcalm job hi
    split at hstep
    · cases hstep
    · next hdying =>
      have hlive := not_isLive_of_dying (not_not.mp hdying)
      split at hstep
      · next target htarget =>
        obtain rfl := Option.some.inj hstep
        refine consistent_bury (consistent_recordTerminalFailure h ?_) ?_ hlive ?_
        · rintro evidenceItemId rfl
          rw [htarget] at hcalm'
          exact hcalm' rfl
        · rw [jobs_recordTerminalFailure]
          exact hi
        · intro _ item hitem habout
          exact isSettled_recordTerminalFailure hitem (names_of_about htarget habout)
      · next htarget =>
        obtain rfl := Option.some.inj hstep
        rw [htarget] at hcalm'
        exact consistent_bury h hi hlive hcalm'
  · cases hstep

theorem consistent_failed {s s' : State} {i : ℕ} {unrecoverable : Bool}
    (h : Consistent tenantId collectionId s)
    (hcalm : Calm isUuid tenantId collectionId s (.failed i unrecoverable))
    (hstep : step isUuid tenantId collectionId s (.failed i unrecoverable) = some s') :
    Consistent tenantId collectionId s' := by
  delta step at hstep
  dsimp only at hstep
  split at hstep
  · next job key hfetching =>
    obtain ⟨hi, hkey⟩ := fetching_eq_some.mp hfetching
    have hcalm' := hcalm (job, key) hfetching
    have hnamed : exceptionOf key ∈ s.exceptions ++ [exceptionOf key] :=
      List.mem_append_right _ (List.mem_singleton.mpr rfl)
    have hexceptions : s.exceptions ⊆ s.exceptions ++ [exceptionOf key] :=
      List.subset_append_left _ _
    split at hstep
    · next attemptNumber hstage =>
      split at hstep
      · obtain rfl := Option.some.inj hstep
        refine h.endFetch hi hkey (fun item => { item with state := .failed }) (fun _ => rfl) ?_ rfl
          rfl hexceptions (List.subset_append_left _ _) fun _ => ?_
        · rintro ⟨⟩
        · refine Or.inr ⟨hnamed, incrementOf key, ?_, rfl⟩
          exact List.mem_append_right _ (List.mem_singleton.mpr rfl)
      · next hfew =>
        obtain rfl := Option.some.inj hstep
        -- the item is failed, so the job is recorded if it is dead
        have hrecorded : Recorded isUuid tenantId collectionId
            (setState (fun item => item.key = key) .failed s.items) job := by
          intro _ item hitem habout
          refine isSettled_setState hitem fun old _ hold _ _ => decide_eq_true ?_
          exact hold.trans (key_of_about hkey habout)
        refine h.endFetch hi hkey (fun item => { item with state := .failed }) (fun _ => rfl) ?_ rfl
          rfl hexceptions (List.Subset.refl _) fun _ => ?_
        · unfold Job.failedStage
          split
          · rintro ⟨⟩
          · split
            · simp [hrecorded]
            · rintro ⟨⟩
        · rcases hcalm' with hlast | hretries | hcounted | hscheduled
          · exact absurd (hlast attemptNumber (by rw [hstage]; rfl)) hfew
          · have hlive : job.IsLive := by simp [Job.IsLive, hstage]
            refine Or.inl (exists_mem_set hi (fun _ => ⟨hkey, ?_⟩)
              ⟨job, List.mem_of_getElem? hi, hkey, hlive⟩)
            simp [Job.IsLive, Job.failedStage, hretries.1, Nat.not_le.mpr hretries.2]
          · exact Or.inr ⟨hnamed, hcounted⟩
          · exact Or.inl (exists_mem_set_of_set (fun hdone => hdone.2) hscheduled _)
    · cases hstep
  · cases hstep

theorem consistent_loaded {s s' : State} {i : ℕ} (h : Sound tenantId collectionId s)
    (hcalm : Calm isUuid tenantId collectionId s (.loaded i))
    (hstep : step isUuid tenantId collectionId s (.loaded i) = some s') :
    Consistent tenantId collectionId s' := by
  delta step at hstep
  dsimp only at hstep
  split at hstep
  · next job key hfetching =>
    obtain ⟨hi, hkey⟩ := fetching_eq_some.mp hfetching
    split at hstep
    · cases hstep
    · split at hstep
      · next hnone =>
        obtain rfl := Option.some.inj hstep
        refine h.setJob hi rfl (Or.inr (freed_of_key hi hkey fun item hitem hitemKey _ => ?_)) ?_
        · simpa [hitemKey] using List.find?_eq_none.mp hnone item hitem
        · rintro ⟨⟩
      · next item hfound =>
        have hitem := List.mem_of_find?_eq_some hfound
        have hitemKey : item.key = key := by simpa using List.find?_some hfound
        split at hstep
        · next hbails =>
          obtain rfl := Option.some.inj hstep
          refine h.setJob hi rfl (Or.inr ?_) (by rintro ⟨⟩)
          rcases hcalm with hfetching' | hfreed
          · refine freed_of_key hi hkey fun other hother hotherKey hfailed => ?_
            obtain rfl := h.eq_of_key_eq hother hitem (hotherKey.trans hitemKey.symm)
            rcases hbails with hfetched | hstatus
            · rw [hfailed] at hfetched
              cases hfetched
            · exact hstatus hfetching'
          · exact hfreed
        · obtain rfl := Option.some.inj hstep
          exact h.setJob hi rfl (Or.inl trivial) (by rintro ⟨⟩)
  · cases hstep

theorem consistent_rejected {s s' : State} {evidenceItemId : JsString}
    (h : Consistent tenantId collectionId s)
    (hcalm : Calm isUuid tenantId collectionId s (.rejected evidenceItemId))
    (hstep : step isUuid tenantId collectionId s (.rejected evidenceItemId) = some s') :
    Consistent tenantId collectionId s' := by
  delta step at hstep
  dsimp only at hstep
  split at hstep
  · next row hrow =>
    obtain rfl := Option.some.inj hstep
    refine ⟨h.setStates rfl (fun _ => id) (List.Subset.refl _) (List.subset_append_left _ _)
      fun item hitem hp _ => ?_, h.jobs⟩
    obtain ⟨hid, hindexable⟩ := of_decide_eq_true hp
    refine (hcalm row hrow item hitem hid hindexable).imp id fun hnamed => ⟨hnamed.1, ?_⟩
    rcases hnamed.2 with ⟨entry, hentry, hkey⟩ | ⟨hcustodian, hcollection⟩
    · exact ⟨entry, List.mem_append_left _ hentry, hkey⟩
    · -- the rejection counts the item itself
      obtain ⟨custodianId, hcustodianId⟩ := Option.isSome_iff_exists.mp hcustodian
      refine ⟨⟨custodianId, progressSourceFor row.kind, item.key⟩, List.mem_append_right _ ?_, rfl⟩
      unfold rejectionIncrements
      rw [hcustodianId]
      simp only [hcollection, if_true]
      exact List.mem_map_of_mem (List.mem_filter.mpr ⟨hitem, hp⟩)
  · cases hstep

theorem consistent_swept {s s' : State} {key : ItemKey JsString}
    (h : Consistent tenantId collectionId s)
    (hcalm : Calm isUuid tenantId collectionId s (.swept key))
    (hstep : step isUuid tenantId collectionId s (.swept key) = some s') :
    Consistent tenantId collectionId s' := by
  delta step at hstep
  dsimp only at hstep
  split at hstep
  · cases hstep
  · split at hstep
    · next item hfound =>
      split at hstep
      · cases hstep
      · split at hstep
        · next hgivesUp =>
          obtain rfl := Option.some.inj hstep
          refine ⟨h.setStates rfl (fun _ => id) (List.subset_append_left _ _) (List.Subset.refl _)
            fun other hother hp _ => ?_, h.jobs⟩
          rw [of_decide_eq_true hp]
          refine (hcalm item hfound hgivesUp).imp id fun hcounted => ⟨?_, hcounted⟩
          exact List.mem_append_right _ (List.mem_singleton.mpr rfl)
        · obtain rfl := Option.some.inj hstep
          have hitem := List.mem_of_find?_eq_some hfound
          refine ⟨?_, ?_⟩
          · refine h.setItems (fun item => { item with attempts := item.attempts + 1 })
              (fun _ => rfl) rfl (fun _ hs => exists_mem_append hs _) (List.Subset.refl _)
              (List.Subset.refl _) fun other hother _ hfailed => ?_
            exact (h.items other hother hfailed).mono (fun hs => exists_mem_append hs _)
              (List.Subset.refl _) (List.Subset.refl _)
          · intro job hjob
            rcases List.mem_append.mp hjob with hjob | hjob
            · exact h.jobs job hjob
            · rw [List.mem_singleton.mp hjob]
              unfold recoveryJob
              split
              · split <;> rintro ⟨⟩
              · rintro ⟨⟩
    · cases hstep

theorem keys_failItem (s : State) (key : ItemKey JsString) :
    (s.failItem key).items.map Item.key = s.items.map Item.key := by
  unfold State.failItem
  split
  · exact keys_updateItems rfl fun _ => rfl
  · rfl

theorem keys_recordTerminalFailure (s : State) (target : FailureTarget) :
    (recordTerminalFailure tenantId collectionId s target).items.map Item.key =
      s.items.map Item.key := by
  cases target <;> rw [recordTerminalFailure] <;> try split
  all_goals first | rfl | exact keys_failItem s _ | exact keys_updateItems rfl fun _ => rfl

/-- Only a new item has a new key. -/
theorem keys_step {s s' : State} {e : Event}
    (hstep : step isUuid tenantId collectionId s e = some s')
    (hlisted : ∀ key evidence, e ≠ .listed key evidence) :
    s'.items.map Item.key = s.items.map Item.key := by
  cases e with
  | listed key evidence => exact absurd rfl (hlisted key evidence)
  | handled i =>
    delta step at hstep
    dsimp only at hstep
    split at hstep
    · split at hstep
      · cases hstep
      · split at hstep <;> obtain rfl := Option.some.inj hstep
        · exact keys_recordTerminalFailure s _
        · rfl
    · cases hstep
  | _ =>
    -- the items are the same ones, or some of them have another state
    delta step at hstep
    dsimp only at hstep
    repeat' split at hstep
    all_goals first
      | (cases hstep; done)
      | (obtain rfl := Option.some.inj hstep
         first
           | rfl
           | exact keys_updateItems rfl fun _ => rfl)

theorem unique_step {s s' : State} {e : Event} (h : (s.items.map Item.key).Nodup)
    (hstep : step isUuid tenantId collectionId s e = some s') :
    (s'.items.map Item.key).Nodup := by
  by_cases hlisted : ∃ key evidence, e = .listed key evidence
  · obtain ⟨key, evidence, rfl⟩ := hlisted
    delta step at hstep
    dsimp only at hstep
    split at hstep
    · cases hstep
    · next hnew =>
      have hnot : key ∉ s.items.map Item.key := by
        intro hmem
        obtain ⟨item, hitem, hkey⟩ := List.mem_map.mp hmem
        exact hnew (List.any_eq_true.mpr ⟨item, hitem, decide_eq_true hkey⟩)
      have happend : ∀ item : Item, item.key = key →
          ((s.items ++ [item]).map Item.key).Nodup := by
        rintro item rfl
        rw [List.map_append, List.map_singleton]
        refine List.Nodup.append h (List.nodup_singleton _) ?_
        exact List.disjoint_singleton.mpr hnot
      split at hstep <;> obtain rfl := Option.some.inj hstep <;> exact happend _ rfl
  · rw [keys_step hstep fun key evidence he => hlisted ⟨key, evidence, he⟩]
    exact h

/-- **A calm step keeps a collection consistent.** -/
theorem sound_step {s s' : State} {e : Event} (h : Sound tenantId collectionId s)
    (hcalm : Calm isUuid tenantId collectionId s e)
    (hstep : step isUuid tenantId collectionId s e = some s') : Sound tenantId collectionId s' := by
  refine ⟨?_, unique_step h.unique hstep⟩
  have hc := h.toConsistent
  cases e with
  | loaded i => exact consistent_loaded h hcalm hstep
  | failed i unrecoverable => exact consistent_failed hc hcalm hstep
  | handled i => exact consistent_handled hc hcalm hstep
  | rejected evidenceItemId => exact consistent_rejected hc hcalm hstep
  | swept key => exact consistent_swept hc hcalm hstep
  | listed key evidence =>
    delta step at hstep
    dsimp only at hstep
    split at hstep
    · cases hstep
    · have hnew : ∀ item : Item, item.state ≠ .failed → ∀ other ∈ s.items ++ [item],
          other.state = .failed → Accounted tenantId collectionId s other.key := by
        intro item hitem other hother hfailed
        rcases List.mem_append.mp hother with hother | hother
        · exact hc.items other hother hfailed
        · rw [List.mem_singleton.mp hother] at hfailed
          exact absurd hfailed hitem
      split at hstep <;> obtain rfl := Option.some.inj hstep
      · exact ⟨hnew _ (by rintro ⟨⟩), hc.jobs⟩
      · exact ⟨hnew _ (by rintro ⟨⟩), hc.jobs⟩
  | enqueued queue data =>
    obtain rfl := Option.some.inj hstep
    refine ⟨fun item hitem hfailed => ?_, fun job hjob => ?_⟩
    · exact (hc.items item hitem hfailed).mono (fun hs => exists_mem_append hs _)
        (List.Subset.refl _) (List.Subset.refl _)
    · rcases List.mem_append.mp hjob with hjob | hjob
      · exact hc.jobs job hjob
      · rw [List.mem_singleton.mp hjob]
        rintro ⟨⟩
  | status status =>
    obtain rfl := Option.some.inj hstep
    exact ⟨hc.items, hc.jobs⟩
  | started i =>
    delta step at hstep
    dsimp only at hstep
    split at hstep
    · next job key hfetching =>
      obtain ⟨hi, hkey⟩ := fetching_eq_some.mp hfetching
      split at hstep
      · obtain rfl := Option.some.inj hstep
        exact hc.endFetch hi hkey
          (fun item => { item with state := .fetching, attempts := item.attempts + 1 })
          (fun _ => rfl) (by rintro ⟨⟩) rfl rfl (List.Subset.refl _) (List.Subset.refl _)
          (by rintro ⟨item, ⟨⟩⟩)
      · cases hstep
    · cases hstep
  | fetched i evidence =>
    delta step at hstep
    dsimp only at hstep
    split at hstep
    · next job key hfetching =>
      obtain ⟨hi, hkey⟩ := fetching_eq_some.mp hfetching
      split at hstep
      · obtain rfl := Option.some.inj hstep
        exact hc.endFetch hi hkey
          (fun item => { item with state := .preserved, evidenceItemId := some evidence.id })
          (fun _ => rfl) (by rintro ⟨⟩) rfl rfl (List.Subset.refl _) (List.Subset.refl _)
          (by rintro ⟨item, ⟨⟩⟩)
      · cases hstep
    · cases hstep
  | skipped i =>
    delta step at hstep
    dsimp only at hstep
    split at hstep
    · next job key hfetching =>
      obtain ⟨hi, hkey⟩ := fetching_eq_some.mp hfetching
      split at hstep
      · obtain rfl := Option.some.inj hstep
        exact hc.endFetch hi hkey (fun item => { item with state := .skipped }) (fun _ => rfl)
          (by rintro ⟨⟩) rfl rfl (List.subset_append_left _ _) (List.Subset.refl _)
          (by rintro ⟨item, ⟨⟩⟩)
      · cases hstep
    · cases hstep
  | completed i =>
    delta step at hstep
    dsimp only at hstep
    split at hstep
    · next job hi =>
      split at hstep
      · next hother =>
        obtain rfl := Option.some.inj hstep
        refine hc.setJob hi rfl (Or.inr fun other hfound item _ hkey => ?_) (by rintro ⟨⟩)
        have hfound' : s.jobs[i]? = some other := hfound
        rw [hi] at hfound'
        obtain rfl := Option.some.inj hfound'
        exact absurd (fetchKey_eq_some hkey).1 hother.1
      · cases hstep
    · cases hstep
  | threw i unrecoverable =>
    delta step at hstep
    dsimp only at hstep
    split at hstep
    · next job hi =>
      split at hstep
      · obtain rfl := Option.some.inj hstep
        exact consistent_failJob hc hi (hcalm job hi)
      · cases hstep
    · cases hstep
  | stalled i =>
    delta step at hstep
    dsimp only at hstep
    split at hstep
    · next job hi =>
      split at hstep
      · obtain rfl := Option.some.inj hstep
        exact hc.setJob hi rfl (Or.inl trivial) (by rintro ⟨⟩)
      · cases hstep
    · cases hstep
  | killed i =>
    delta step at hstep
    dsimp only at hstep
    split at hstep
    · next job hi =>
      split at hstep
      · obtain rfl := Option.some.inj hstep
        exact hc.setJob hi rfl (Or.inr hcalm) (by rintro ⟨⟩)
      · cases hstep
    · cases hstep
  | unhandled i =>
    delta step at hstep
    dsimp only at hstep
    split at hstep
    · next job hi =>
      split at hstep
      · next hdying =>
        obtain rfl := Option.some.inj hstep
        exact consistent_bury hc hi (not_isLive_of_dying hdying) (hcalm job hi)
      · cases hstep
    · cases hstep
  | indexed evidenceItemId | extracted key =>
    obtain rfl := Option.some.inj hstep
    exact ⟨hc.setStates rfl (fun _ => id) (List.Subset.refl _) (List.Subset.refl _)
      (by rintro item - - ⟨⟩), hc.jobs⟩

/-! ## Runs -/

theorem sound_created : Sound tenantId collectionId created where
  items := by rintro item ⟨⟩
  jobs := by rintro job ⟨⟩
  unique := List.nodup_nil

/-- UUIDs have 36 characters. -/
def looksLikeUuid (text : JsString) : Bool := text.length = 36

def exampleTenant : JsString := js "00000000-0000-4000-8000-000000000001"

def exampleCollection : JsString := js "00000000-0000-4000-8000-000000000002"

/-- A message in a mailbox. -/
def exampleMessage : ItemKey JsString :=
  ⟨js "00000000-0000-4000-8000-000000000003", .email, js "m1"⟩

/-- The evidence of that message. -/
def exampleEvidence : Evidence where
  id := js "00000000-0000-4000-8000-000000000004"
  kind := .email
  collectionId := some exampleCollection
  custodianId := some exampleMessage.custodianId

/-- An attempt to fetch the message fails, and the worker is killed in the next one. -/
def killedEvents : List Event :=
  [.listed exampleMessage none,
    .enqueued .collectionFetchItem (itemPayload exampleTenant exampleCollection exampleMessage),
    .loaded 0, .started 0, .failed 0 false, .loaded 0, .started 0, .killed 0, .handled 0]

/-- The message is preserved, and the search engine rejects its document. -/
def rejectedEvents : List Event :=
  [.listed exampleMessage (some exampleEvidence), .rejected exampleEvidence.id]

end AegCloudDfir.Collection.Failures
