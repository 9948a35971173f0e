import Mathlib

/-!
# The ledger of a collection

The rows the jobs of one collection work on: its items, the evidence preserved for it,
its page checkpoints and the count of its exceptions; and the transactions of
`fetch-page`, `fetch-item`, the processing pipeline and the stalled-item sweeper, each
as a function on these rows. All of `apps/worker/src` that writes them is here:
`processors/collection-fetch-page.ts`, `processors/collection-audit-fetch-page.ts`,
`processors/collection-fetch-item.ts`, `processors/search-index.ts`,
`processors/pst-extract.ts`, `terminal-failure.ts` and `stalled-item-sweeper.ts`, and the
action `retry` of the API.

Two columns are not in the database. An item remembers how its last attempt ended, and a
piece of evidence where it came from; nothing reads them but the specifications.
-/

namespace AegCloudDfir.Collection

variable {Id : Type} [DecidableEq Id]

/-! ## Rows -/

/-- `CollectionItemState`. -/
inductive ItemState : Type where
  | discovered
  | fetching
  | preserved
  | processed
  | indexed
  | failed
  | skipped
  deriving DecidableEq

/-- `CollectionSource`. -/
inductive Source : Type where
  | email
  | drive
  | chat
  | audit
  deriving DecidableEq

/-- `EvidenceKind`. -/
inductive EvidenceKind : Type where
  | email
  | attachment
  | file
  | folderMetadata
  | container
  | auditRecord
  | auditBatch
  | chatMessage
  | chatConversation
  deriving DecidableEq

/-- `ProcessingStatus`. -/
inductive ProcessingStatus : Type where
  | pending
  | parsed
  | extracted
  | ocrComplete
  | previewReady
  | indexed
  | failed
  | exception
  deriving DecidableEq

/-- `CheckpointCursorKind`. -/
inductive CursorKind : Type where
  | page
  | delta
  | history
  | changes
  | none
  deriving DecidableEq

/-- What identifies an item in its collection. -/
structure ItemKey (Id : Type) where
  custodianId : Id
  source : Source
  providerItemId : Id
  deriving DecidableEq

instance itemKeyLawfulBEq {Id : Type} [DecidableEq Id] : LawfulBEq (ItemKey Id) := inferInstance

/-- `MAX_ITEM_ATTEMPTS`. -/
def maxItemAttempts : ℕ := 5

/-- `MAX_RECOVERY_ATTEMPTS`. -/
def maxRecoveryAttempts : ℕ := 3

/-- How the last attempt to fetch an item ended. -/
inductive Attempt : Type where
  /-- there was none -/
  | none
  /-- it is under way -/
  | running
  /-- it failed as the attempt of this number -/
  | failed (attemptNumber : ℕ)
  /-- the item was preserved or skipped -/
  | done
  deriving DecidableEq

/-- A row of `collection_items`. -/
structure Item (Id : Type) where
  key : ItemKey Id
  state : ItemState
  attempts : ℕ
  evidenceItemId : Option Id
  lastAttempt : Attempt

/-- The last attempt failed in a way that is retried. -/
def Item.AwaitsRetry (item : Item Id) : Prop :=
  ∃ n, item.lastAttempt = .failed n ∧ n < maxItemAttempts

/-- Where a piece of evidence came from. -/
inductive Origin (Id : Type) : Type where
  /-- `fetch-item` preserved an item -/
  | fetched (key : ItemKey Id)
  /-- an audit batch, an upload, a message of a container or a child of another item -/
  | derived
  deriving DecidableEq

/-- A row of `evidence_items`. -/
structure Evidence (Id : Type) where
  id : Id
  kind : EvidenceKind
  processingStatus : ProcessingStatus
  origin : Origin Id

/-- A row of `collection_checkpoints`, without its cursor. -/
structure Checkpoint (Id : Type) where
  id : ℕ
  scope : ItemKey Id
  cursorKind : CursorKind
  version : ℕ
  deriving DecidableEq

/-- The rows of one collection. -/
structure Ledger (Id : Type) where
  items : List (Item Id)
  evidence : List (Evidence Id)
  checkpoints : List (Checkpoint Id)
  /-- the next checkpoint gets this id -/
  nextCheckpoint : ℕ
  /-- how many rows `collection_exceptions` has -/
  exceptions : ℕ
  /-- the increments of the progress counter `preserved` -/
  preserved : List (Origin Id)

/-- A collection nothing has been done for. -/
def Ledger.empty : Ledger Id := ⟨[], [], [], 0, 0, []⟩

namespace Ledger

variable (l : Ledger Id)

/-! ## Reading and updating rows -/

/-- `collectionItem.findUnique`. -/
def findItem (key : ItemKey Id) : Option (Item Id) := l.items.find? fun item => item.key = key

/-- `collectionItem.updateMany` with a condition. -/
def updateItems (p : Item Id → Bool) (f : Item Id → Item Id) : Ledger Id :=
  { l with items := l.items.map fun item => if p item then f item else item }

/-- `collectionItem.update` by key. -/
def updateItem (key : ItemKey Id) (f : Item Id → Item Id) : Ledger Id :=
  l.updateItems (fun item => item.key = key) f

/-- `collectionItem.createMany` with `skipDuplicates`, in one state. -/
def createItem (item : Item Id) : Ledger Id :=
  if l.items.any fun row => row.key = item.key then l
  else { l with items := l.items ++ [item] }

/-- `evidenceItem.create`. -/
def createEvidence (row : Evidence Id) : Ledger Id := { l with evidence := l.evidence ++ [row] }

/-- `evidenceItem.update`. -/
def setProcessing (p : Evidence Id → Bool) (status : ProcessingStatus) : Ledger Id :=
  { l with
    evidence := l.evidence.map fun row =>
      if p row then { row with processingStatus := status } else row }

/-- `recordException`. -/
def recordException : Ledger Id := { l with exceptions := l.exceptions + 1 }

/-- `collectionCheckpoint.updateMany` under the guard of a version. -/
def advance (id version : ℕ) (cursorKind : CursorKind) : Ledger Id :=
  { l with
    checkpoints := l.checkpoints.map fun cp =>
      if cp.id = id ∧ cp.version = version then
        { cp with cursorKind, version := version + 1 }
      else cp }

/-- A new item. -/
def newItem (key : ItemKey Id) (state : ItemState) (evidenceItemId : Option Id) : Item Id where
  key
  state
  attempts := 0
  evidenceItemId
  lastAttempt := .none

/-! ## Paging -/

/-- The items a page adds. -/
def discover : List (ItemKey Id) → Ledger Id → Ledger Id
  | [], l => l
  | key :: keys, l => discover keys (l.createItem (newItem key .discovered none))

/-- The transaction of `processCollectionFetchPage`. -/
def commitPage (id version : ℕ) (entries : List (ItemKey Id)) (cursorKind : CursorKind) :
    Ledger Id :=
  (discover entries l).advance id version cursorKind

/-- A batch of audit records: the item and its evidence at once, unless the item exists. -/
def commitBatch (key : ItemKey Id) (evidenceId : Id) : Ledger Id :=
  if l.items.any fun row => row.key = key then l
  else
    let batch : Evidence Id := ⟨evidenceId, .auditBatch, .pending, .derived⟩
    let l := (l.createItem (newItem key .preserved (some evidenceId))).createEvidence batch
    { l with preserved := l.preserved ++ [.derived] }

/-- The batches of a page. -/
def commitBatches : List (ItemKey Id × Id) → Ledger Id → Ledger Id
  | [], l => l
  | (key, evidenceId) :: batches, l => commitBatches batches (l.commitBatch key evidenceId)

/-- The transaction of `processAuditFetchPage`: the checkpoint is advanced first, and
nothing happens if it is stale. -/
def commitAuditPage (id version : ℕ) (batches : List (ItemKey Id × Id))
    (cursorKind : CursorKind) : Ledger Id :=
  if l.checkpoints.any fun cp => cp.id = id ∧ cp.version = version then
    commitBatches batches (l.advance id version cursorKind)
  else l

/-- `collectionCheckpoint.upsert` of a new scope. -/
def seedCheckpoint (scope : ItemKey Id) : Ledger Id :=
  if l.checkpoints.any fun cp => cp.scope = scope then l
  else
    { l with
      checkpoints := l.checkpoints ++ [⟨l.nextCheckpoint, scope, .page, 0⟩]
      nextCheckpoint := l.nextCheckpoint + 1 }

/-- The checkpoints of the discovered scopes. -/
def seedCheckpoints : List (ItemKey Id) → Ledger Id → Ledger Id
  | [], l => l
  | scope :: scopes, l => seedCheckpoints scopes (l.seedCheckpoint scope)

/-- A scope that is given up: an exception instead of its checkpoint. -/
def dropCheckpoint (scope : ItemKey Id) : Ledger Id :=
  { l.recordException with checkpoints := l.checkpoints.filter fun cp => cp.scope ≠ scope }

/-! ## Fetching -/

/-- `TERMINAL_STATES` of `fetch-item`. -/
def isFetched (state : ItemState) : Bool :=
  state = .preserved ∨ state = .processed ∨ state = .indexed ∨ state = .skipped

/-- The second transaction of `processCollectionFetchItem`. -/
def startItem (key : ItemKey Id) : Ledger Id :=
  l.updateItem key fun item =>
    { item with state := .fetching, attempts := item.attempts + 1, lastAttempt := .running }

/-- The kind of the evidence of a source. -/
def evidenceKindOf : Source → EvidenceKind
  | .email => .email
  | .chat => .chatMessage
  | _ => .file

/-- The last transaction of `processCollectionFetchItem`: whatever state the item is in by
now, it gets the new evidence. -/
def preserveItem (key : ItemKey Id) (evidenceId : Id) (derivative : Bool) : Ledger Id :=
  let row : Evidence Id := ⟨evidenceId, evidenceKindOf key.source, .pending, .fetched key⟩
  let l := if derivative then l.recordException else l
  let l := (l.createEvidence row).updateItem key fun item =>
    { item with state := .preserved, evidenceItemId := some evidenceId, lastAttempt := .done }
  { l with preserved := l.preserved ++ [.fetched key] }

/-- The handler of `NonDownloadableError`. -/
def skipItem (key : ItemKey Id) : Ledger Id :=
  l.recordException.updateItem key fun item => { item with state := .skipped, lastAttempt := .done }

/-- The handler of every other error. -/
def failItem (key : ItemKey Id) (attemptNumber : ℕ) : Ledger Id :=
  l.recordException.updateItem key fun item =>
    { item with state := .failed, lastAttempt := .failed attemptNumber }

/-! ## Processing -/

/-- `INDEXABLE_LEDGER_STATES`. -/
def isIndexable (state : ItemState) : Bool := state = .preserved ∨ state = .processed

/-- The items of a piece of evidence that indexing settles. -/
def indexable (evidenceId : Id) (item : Item Id) : Bool :=
  item.evidenceItemId = some evidenceId ∧ isIndexable item.state

/-- `indexableFrom`: audit batches are never parsed. -/
def indexableFrom (row : Evidence Id) : Bool :=
  row.processingStatus = .parsed ∨ row.processingStatus = .extracted ∨
    row.processingStatus = .ocrComplete ∨ row.processingStatus = .previewReady ∨
    row.kind = .auditBatch ∧ row.processingStatus = .pending

/-- `search.index` succeeded. -/
def indexEvidence (evidenceId : Id) : Ledger Id :=
  (l.setProcessing (fun row => row.id = evidenceId ∧ indexableFrom row) .indexed).updateItems
    (indexable evidenceId) fun item => { item with state := .indexed }

/-- `search.index` failed for good. -/
def failIndexing (evidenceId : Id) : Ledger Id :=
  l.updateItems (indexable evidenceId) fun item => { item with state := .failed }

/-- Another stage of the pipeline is through with a piece of evidence. Parsing an email
adds its attachments. -/
def process (evidenceId : Id) (status : ProcessingStatus) (children : List Id) : Ledger Id :=
  let l := l.setProcessing (fun row => row.id = evidenceId) status
  { l with evidence := l.evidence ++ children.map fun id => ⟨id, .attachment, .pending, .derived⟩ }

/-! ## Jobs that died -/

/-- `TERMINAL_STATES` of `terminal-failure.ts`. -/
def isSettled (state : ItemState) : Bool :=
  state = .failed ∨ state = .skipped ∨ state = .indexed

/-- `recordTerminalFailure` of a job that works on an item. -/
def recordItemFailure (key : ItemKey Id) : Ledger Id :=
  if l.items.any fun item => item.key = key ∧ ¬ isSettled item.state then
    l.recordException.updateItem key fun item => { item with state := .failed }
  else l

/-- `recordTerminalFailure` of a job that works on a piece of evidence. -/
def recordEvidenceFailure (evidenceId : Id) : Ledger Id :=
  l.updateItems (fun item => item.evidenceItemId = some evidenceId ∧ ¬ isSettled item.state)
    fun item => { item with state := .failed }

/-- `recordTerminalFailure` of a job that works on a container. -/
def recordExtractFailure (key : ItemKey Id) (evidenceId : Id) : Ledger Id :=
  (l.recordItemFailure key).setProcessing
    (fun row => row.id = evidenceId ∧ row.processingStatus = .pending) .exception

/-! ## Uploads -/

/-- `discoverUploads` claims a container. -/
def claimContainer (key : ItemKey Id) (evidenceId : Id) : Ledger Id :=
  if l.items.any fun row => row.key = key then l
  else
    let container : Evidence Id := ⟨evidenceId, .container, .pending, .derived⟩
    let l := (l.createItem (newItem key .preserved (some evidenceId))).createEvidence container
    { l with preserved := l.preserved ++ [.derived] }

/-- `preserveMessage` of `pst-extract.ts`. -/
def preserveMessage (key : ItemKey Id) (evidenceId : Id) : Ledger Id :=
  let message : Evidence Id := ⟨evidenceId, .email, .pending, .derived⟩
  let l := l.createEvidence message
  let l :=
    if l.items.any fun row => row.key = key then
      l.updateItem key fun item =>
        { item with state := .preserved, evidenceItemId := some evidenceId }
    else l.createItem (newItem key .preserved (some evidenceId))
  { l with preserved := l.preserved ++ [.derived] }

/-- `pst.extract` is through with a container: it was read, or it is encrypted or corrupt. -/
def closeContainer (key : ItemKey Id) (evidenceId : Id) (state : ItemState)
    (status : ProcessingStatus) : Ledger Id :=
  let l := if state = .processed then l else l.recordException
  (l.setProcessing (fun row => row.id = evidenceId) status).updateItem key fun item =>
    { item with state }

/-! ## The stalled-item sweeper -/

/-- `IN_FLIGHT`. -/
def isInFlight (state : ItemState) : Bool :=
  state = .discovered ∨ state = .fetching ∨ state = .preserved

/-- What `recoveryPlan` decides about an item that has been idle. -/
inductive RecoveryAction : Type where
  | wait
  | requeue
  | giveUp

/-- `recoveryPlan`. -/
def recoveryPlan (item : Item Id) : RecoveryAction :=
  if ¬ isInFlight item.state then .wait
  else if item.attempts ≥ maxRecoveryAttempts then .giveUp
  else if item.state = .preserved ∧ item.evidenceItemId = none then .giveUp
  else .requeue

/-- The container a given-up item stands for. -/
def isContainerOf (item : Item Id) (row : Evidence Id) : Bool :=
  item.evidenceItemId = some row.id ∧ row.kind = .container

/-- The sweeper and an item that has been idle. -/
def sweepItem (key : ItemKey Id) : Ledger Id :=
  match l.findItem key with
  | none => l
  | some item =>
    match recoveryPlan item with
    | .wait => l
    | .requeue => l.updateItem key fun item => { item with attempts := item.attempts + 1 }
    | .giveUp =>
      (l.recordException.setProcessing (isContainerOf item) .exception).updateItem key
        fun item => { item with state := .failed }

/-- The sweeper and an email that was not parsed. -/
def sweepParent (evidenceId : Id) : Ledger Id :=
  l.recordException.setProcessing
    (fun row => row.id = evidenceId ∧ row.kind = .email ∧ row.processingStatus = .pending)
    .exception

/-! ## Retrying -/

/-- `RETRY_INDEX_CAP`. -/
def retryIndexCap : ℕ := 50000

/-- `RETRY_ITEM_CAP`. -/
def retryItemCap : ℕ := 1000

/-- `allFailed`. -/
def allFailed : List (Item Id) :=
  (l.items.filter fun item => item.state = .failed).take retryIndexCap

/-- `failedItems`: those go back to the provider. -/
def failedItems : List (Item Id) :=
  (l.allFailed.filter fun item => item.evidenceItemId = none).take retryItemCap

/-- The transaction of the action `retry`: failed items whose bytes are preserved are
indexed again, and the exceptions of some evidence are cleared. -/
def retry (stuck : List Id) (cleared : ℕ) : Ledger Id :=
  let reindexable := (l.allFailed.filter fun item => item.evidenceItemId ≠ none).map (·.key)
  let l := l.updateItems (fun item => item.key ∈ reindexable) fun item =>
    { item with state := .preserved }
  let l := l.setProcessing (fun row => row.id ∈ stuck ∧ row.processingStatus = .exception) .pending
  { l with exceptions := l.exceptions - cleared }

/-! ## What finalize looks at -/

/-- How many items are in a state. -/
def count (state : ItemState) : ℕ := l.items.countP fun item => item.state = state

/-- `inFlight`. -/
def inFlight : ℕ := l.count .discovered + l.count .fetching + l.count .preserved

/-- `pageCheckpoints`. -/
def pageCheckpoints : ℕ := l.checkpoints.countP fun cp => cp.cursorKind = .page

/-- `unparsedParents`. -/
def unparsedParents : ℕ :=
  l.evidence.countP fun row =>
    (row.kind = .email ∨ row.kind = .container) ∧ row.processingStatus = .pending

/-- Nothing is left to do. -/
structure Quiet : Prop where
  items : ∀ item ∈ l.items, ¬ isInFlight item.state
  checkpoints : ∀ cp ∈ l.checkpoints, cp.cursorKind ≠ .page
  parents : ∀ row ∈ l.evidence, row.kind = .email ∨ row.kind = .container →
    row.processingStatus ≠ .pending

end Ledger

end AegCloudDfir.Collection
