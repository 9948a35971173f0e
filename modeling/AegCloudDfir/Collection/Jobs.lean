import AegCloudDfir.Collection.Paging
import AegCloudDfir.Collection.Recovery

/-!
# The jobs in the outbox

The machine of `AegCloudDfir.Collection.Recovery` with the rows of the outbox that enqueue
`fetch-page`, `fetch-item` and `pst.extract`. A transaction that enqueues jobs inserts their
rows, and a row whose key was used before is skipped. A worker takes a job when it starts an
execution, and whether the execution does anything is another question: it reads the status of
the collection, and bails out unless that is `fetching`.

Keys are what they are made of here: a scope and a continuation, an item and a number. What the
texts of the keys tell apart is said by `pageKey_injective` and `AegCloudDfir.Dispatch.JobKeys`.
-/

namespace AegCloudDfir.Collection

variable {Id : Type} [DecidableEq Id]

namespace Jobs

/-- What a job of `pst.extract` is enqueued for: its container was claimed, or is recovered by
the sweeper, or retried by the user. -/
inductive Extraction : Type where
  | claimed
  | recover (attempt : ℕ)
  | retry (round : ℕ)
  deriving DecidableEq

/-- The key of a job of `fetch-page`. -/
abbrev PageJob (Id : Type) := ItemKey Id × Continuation

/-- The key of a job of `fetch-item`: the item and `:a{attempts}`. -/
abbrev ItemJob (Id : Type) := ItemKey Id × ℕ

/-- The key of a job of `pst.extract`. -/
abbrev ExtractJob (Id : Type) := Id × Extraction

/-- A collection and its jobs. -/
structure State (Id : Type) where
  core : Recovery.State Id
  pages : List (Outbox.Row (PageJob Id) (ItemKey Id))
  items : List (Outbox.Row (ItemJob Id) (ItemKey Id))
  extracts : List (Outbox.Row (ExtractJob Id) Id)
  /-- the items that were enqueued to be fetched and not attempted since; nothing reads them
  but the specification -/
  unattempted : List (ItemKey Id)

/-- A new collection. -/
def State.created (provider : Provider) : State Id := ⟨.created provider, [], [], [], []⟩

/-- What comes next. -/
inductive Event (Id : Type) : Type where
  | core (e : Recovery.Event Id)
  /-- a page is stored -/
  | commitPage (i : ℕ) (providerItemIds : List Id) (nextCursor deltaCursor : Option JsString)
  | commitAuditPage (i : ℕ) (batches : List (Id × Id)) (nextCursor : Option JsString)
  /-- the sweeper resumes a stalled checkpoint -/
  | resumePage (scope : ItemKey Id) (attempt : ℕ)
  /-- the action `retry`, with its `Date.now()` -/
  | retry (stuck : List Id) (cleared round : ℕ)
  /-- a worker takes a job -/
  | takePage (key : PageJob Id)
  | takeItem (key : ItemJob Id)
  | takeExtract (key : ExtractJob Id)
  /-- the queue delivers a job again -/
  | redeliverPage (key : PageJob Id)
  | redeliverItem (key : ItemJob Id)
  | redeliverExtract (key : ExtractJob Id)

/-! ## What is enqueued -/

/-- `pending`: the items of a page that are to be fetched, once the page is stored. -/
def pending (l : Ledger Id) (entries : List (ItemKey Id)) : List (ItemJob Id) :=
  ((Ledger.discover entries l).items.filter fun item =>
    item.key ∈ entries ∧ (item.state = .discovered ∨ item.state = .failed)).map fun item =>
      (item.key, item.attempts)

/-- The rows that the sweeper inserts for an item that it has read: `fetch-item` unless the
item is preserved. -/
def refetch (read : Item Id) : List (ItemJob Id) :=
  match Ledger.recoveryPlan read with
  | .requeue => if read.state = .preserved then [] else [(read.key, read.attempts + 1)]
  | _ => []

/-- The rows of `fetch-item` that a transaction inserts. -/
def itemJobs (s : Recovery.State Id) : Recovery.Event Id → List (ItemJob Id)
  | .base (.work (.commitPage i providerItemIds _)) =>
    match s.base.work.pages[i]? with
    | some cp => pending s.ledger (providerItemIds.map (Work.keyIn cp.scope))
    | none => []
  | .base (.retry _ _) => s.ledger.failedItems.map fun item => (item.key, item.attempts)
  | .applyPlan i =>
    match s.plans[i]? with
    | some read => refetch read
    | none => []
  | _ => []

/-- The item whose `attempts` a transaction increments without enqueuing it: an execution
starts, or the sweeper has a preserved item indexed. -/
def attempted (s : Recovery.State Id) : Recovery.Event Id → Option (ItemKey Id)
  | .base (.work (.startItem i)) => s.base.work.fetches[i]?.map (·.key)
  | .applyPlan i =>
    s.plans[i]?.bind fun read =>
      match Ledger.recoveryPlan read with
      | .requeue => if read.state = .preserved then some read.key else none
      | _ => none
  | _ => none

/-- The version guard of a checkpoint. -/
def holds (l : Ledger Id) (checkpoint : Checkpoint Id) : Bool :=
  l.checkpoints.any fun cp => cp.id = checkpoint.id ∧ cp.version = checkpoint.version

/-- The row of `fetch-page` for the page after the one that an execution stores. -/
def continuation (s : Recovery.State Id) (i : ℕ) (next : Option Continuation) :
    List (PageJob Id) :=
  match s.base.work.pages[i]?, next with
  | some cp, some next => if holds s.ledger cp then [(cp.scope, next)] else []
  | _, _ => []

/-- The rows of `fetch-page` that a transaction inserts. -/
def pageJobs (s : Recovery.State Id) : Recovery.Event Id → List (PageJob Id)
  | .base (.finishDiscovery _ scopes) => scopes.map fun scope => (scope, .start)
  | .base (.work (.expirePage i)) =>
    continuation s i (s.base.work.pages[i]?.map fun cp => .rescan (cp.version + 1))
  | _ => []

/-- The rows of `pst.extract` that the sweeper inserts for a container that it has read. -/
def reextract (l : Ledger Id) (read : Item Id) : List (ExtractJob Id) :=
  match Ledger.recoveryPlan read, read.evidenceItemId with
  | .requeue, some evidenceId =>
    if read.state = .preserved ∧ (l.evidence.any fun row =>
        row.id = evidenceId ∧ row.kind = .container) then
      [(evidenceId, .recover (read.attempts + 1))]
    else []
  | _, _ => []

/-- The rows of `pst.extract` that a transaction inserts. -/
def extractJobs (s : Recovery.State Id) : Recovery.Event Id → List (ExtractJob Id)
  | .base (.claimContainer _ _ evidenceId) => [(evidenceId, .claimed)]
  | .applyPlan i =>
    match s.plans[i]? with
    | some read => reextract s.ledger read
    | none => []
  | _ => []

/-- The containers among what is retried. -/
def stuckContainers (l : Ledger Id) (stuck : List Id) : List Id :=
  stuck.filter fun id => l.evidence.any fun row =>
    row.id = id ∧ row.kind = .container ∧ row.processingStatus = .exception

/-! ## The machine -/

/-- The events that have their own names here. -/
def isOwn : Recovery.Event Id → Bool
  | .base (.work (.loadPage _)) | .base (.work (.loadItem _)) => true
  | .base (.work (.commitPage _ _ _)) | .base (.work (.commitAuditPage _ _ _)) => true
  | .base (.retry _ _) => true
  | _ => false

/-- A transaction, and the rows it inserts. -/
def fire (s : State Id) (e : Recovery.Event Id) (pages : List (PageJob Id))
    (extracts : List (ExtractJob Id)) : Option (State Id) :=
  (Recovery.step s.core e).map fun core =>
    { core
      pages := Outbox.insertAll Prod.fst pages s.pages
      items := Outbox.insertAll Prod.fst (itemJobs s.core e) s.items
      extracts := Outbox.insertAll Prod.fst extracts s.extracts
      unattempted :=
        match attempted s.core e with
        | some key => s.unattempted.filter fun other => other ≠ key
        | none => s.unattempted ++ (itemJobs s.core e).map Prod.fst }

section Machine

variable (sha256 : JsString → JsString)

/-- The continuation at a cursor. -/
def atCursor (cursor : JsString) : Continuation := .cursor (Paging.cursorHash sha256 cursor)

/-- What a page says about its successor. -/
def pageEnd (nextCursor deltaCursor : Option JsString) : PageEnd :=
  match nextCursor with
  | some _ => .more
  | none => .exhausted (deltaCursor.any fun cursor => ¬ cursor.isEmpty)

/-- One transaction, if it can come next. -/
def step (s : State Id) : Event Id → Option (State Id)
  | .core e => if isOwn e then none else fire s e (pageJobs s.core e) (extractJobs s.core e)
  | .commitPage i providerItemIds nextCursor deltaCursor =>
    fire s (.base (.work (.commitPage i providerItemIds (pageEnd nextCursor deltaCursor))))
      (continuation s.core i (nextCursor.map (atCursor sha256))) []
  | .commitAuditPage i batches nextCursor =>
    fire s (.base (.work (.commitAuditPage i batches nextCursor.isNone)))
      (continuation s.core i (nextCursor.map (atCursor sha256))) []
  | .resumePage scope attempt =>
    if s.core.base.status.isSwept ∧ (s.core.ledger.checkpoints.any fun cp =>
        cp.scope = scope ∧ cp.cursorKind = .page) then
      some { s with pages := Outbox.insert s.pages (scope, .recover attempt) scope }
    else none
  | .retry stuck cleared round =>
    fire s (.base (.retry stuck cleared)) []
      ((stuckContainers s.core.ledger stuck).map fun id => (id, .retry round))
  | .takePage key =>
    match s.pages.find? fun row => row.key = key ∧ row.consumed = false with
    | some row =>
      fire { s with pages := Outbox.setConsumed s.pages key true } (.base (.work (.loadPage row.job)))
        [] []
    | none => none
  | .takeItem key =>
    match s.items.find? fun row => row.key = key ∧ row.consumed = false with
    | some row =>
      fire { s with items := Outbox.setConsumed s.items key true } (.base (.work (.loadItem row.job)))
        [] []
    | none => none
  | .takeExtract key =>
    if s.extracts.any fun row => row.key = key ∧ row.consumed = false then
      some { s with extracts := Outbox.setConsumed s.extracts key true }
    else none
  | .redeliverPage key => some { s with pages := Outbox.setConsumed s.pages key false }
  | .redeliverItem key => some { s with items := Outbox.setConsumed s.items key false }
  | .redeliverExtract key => some { s with extracts := Outbox.setConsumed s.extracts key false }

end Machine

end Jobs

end AegCloudDfir.Collection
