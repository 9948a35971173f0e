import AegCloudDfir.Collection.Ledger
import AegCloudDfir.Lib.Transition

/-!
# The jobs of a collection

One collection, the jobs that work on it, and its user, as a machine. Every event is one
transaction of the source, so a job that reads in one transaction and writes in a later
one is an execution that has read something: it can be overtaken, it can be redelivered
(the same event again starts another execution), and it can disappear between any two of
its transactions.

The events come in two parts. A `WorkEvent` belongs to a job that only works on the
ledger; it reads the status of the collection but never writes it. The other events are
those of `discover` and `finalize`, and the actions of the user.

* `Work.step` — the jobs `fetch-page` and `fetch-item`, the pipeline and the sweeper.
* `step` — everything.

The sweepers enqueue nothing here that could not be redelivered anyway, so what is left of
them is what they write. Nor is it modelled how long an item has been idle: the sweeper may
find any item stalled.
-/

namespace AegCloudDfir.Collection

variable {Id : Type} [DecidableEq Id]

/-! ## Statuses -/

/-- `CollectionStatus`. -/
inductive Status : Type where
  | created
  | discovering
  | fetching
  | processing
  | finalizing
  | completed
  | paused
  | cancelling
  | cancelled
  | failed
  deriving DecidableEq

/-- `Completeness`. The source's `partial` is `incomplete`. -/
inductive Completeness : Type where
  | completeWithinSelectedApiScope
  | completeWithExceptions
  | incomplete
  | failed
  | cancelled
  deriving DecidableEq

/-- Where a collection comes from. -/
inductive Provider : Type where
  | microsoft
  | google
  | imap
  | dropbox
  | slack
  | upload
  deriving DecidableEq

/-- `exhaustedCursorKind`: the kind of a checkpoint once its scope is exhausted. -/
def exhaustedCursorKind (provider : Provider) (source : Source) (hasDelta : Bool) : CursorKind :=
  match provider with
  | .imap => .page
  | .slack => .none
  | .dropbox => if hasDelta then .delta else .none
  | _ =>
    if ¬ hasDelta then .none
    else
      match source with
      | .email => if provider = .google then .history else .delta
      | _ => if provider = .google then .changes else .delta

/-- What the last page of a scope says: there is a next cursor, or only a delta. -/
inductive PageEnd : Type where
  | more
  | exhausted (hasDelta : Bool)
  deriving DecidableEq

/-- `nextKind`. -/
def nextKind (provider : Provider) (source : Source) (kind : CursorKind) : PageEnd → CursorKind
  | .exhausted hasDelta => exhaustedCursorKind provider source hasDelta
  | .more => if kind = .delta ∨ kind = .history ∨ kind = .changes then kind else .page

/-! ## Working on the ledger -/

/-- An execution of `processCollectionFetchItem` that has loaded its item. -/
structure Fetch (Id : Type) where
  key : ItemKey Id
  /-- the attempts and the evidence it read -/
  attempts : ℕ
  evidenceItemId : Option Id
  /-- its second transaction is through -/
  started : Bool

/-- The ledger and the executions that work on it. -/
structure Work (Id : Type) where
  ledger : Ledger Id
  /-- executions of `processCollectionFetchPage`, by the checkpoint they read -/
  pages : List (Checkpoint Id)
  fetches : List (Fetch Id)

/-- What a job that works on the ledger does next. -/
inductive WorkEvent (Id : Type) : Type where
  /-- `fetch-page` reads the checkpoint of a scope -/
  | loadPage (scope : ItemKey Id)
  /-- the page is stored -/
  | commitPage (i : ℕ) (providerItemIds : List Id) (pageEnd : PageEnd)
  /-- the page of an audit scope is stored: the batches with their new evidence -/
  | commitAuditPage (i : ℕ) (batches : List (Id × Id)) (exhausted : Bool)
  /-- the cursor has expired: `handleExpiredCheckpoint` -/
  | expirePage (i : ℕ)
  /-- Slack refuses for good -/
  | refusePage (i : ℕ)
  /-- an audit scope is not available: `exhaustWithException` -/
  | exhaustPage (i : ℕ)
  /-- any other error, or a crash -/
  | crashPage (i : ℕ)
  /-- `fetch-item` reads an item -/
  | loadItem (key : ItemKey Id)
  /-- the item is marked as being fetched -/
  | startItem (i : ℕ)
  /-- its bytes are recorded as evidence -/
  | preserveItem (i : ℕ) (evidenceId : Id) (derivative : Bool)
  /-- the provider does not let anyone download it -/
  | skipItem (i : ℕ)
  /-- the attempt failed -/
  | failItem (i : ℕ)
  | crashItem (i : ℕ)
  /-- some job records an exception and nothing else -/
  | recordException
  | process (evidenceId : Id) (status : ProcessingStatus) (children : List Id)
  | indexEvidence (evidenceId : Id)
  | failIndexing (evidenceId : Id)
  | recordItemFailure (key : ItemKey Id)
  | recordEvidenceFailure (evidenceId : Id)
  | recordExtractFailure (key : ItemKey Id) (evidenceId : Id)
  /-- `pst.extract` finds a message in an upload -/
  | preserveMessage (key : ItemKey Id) (evidenceId : Id)
  /-- `pst.extract` is through with an upload -/
  | closeContainer (key : ItemKey Id) (evidenceId : Id) (state : ItemState)
      (status : ProcessingStatus)
  /-- the sweeper finds a stalled item -/
  | sweepItem (key : ItemKey Id)
  /-- the sweeper gives up a checkpoint -/
  | sweepCheckpoint (scope : ItemKey Id)
  /-- the sweeper gives up an email that was never parsed -/
  | sweepParent (evidenceId : Id)

/-- Jobs of `fetch-item` are enqueued for the items that pages list, so never for audit
batches or for anything in an upload. -/
def Fetchable (provider : Provider) (key : ItemKey Id) : Prop :=
  provider ≠ .upload ∧ key.source ≠ .audit

instance (provider : Provider) (key : ItemKey Id) : Decidable (Fetchable provider key) :=
  inferInstanceAs (Decidable (_ ∧ _))

/-- The sweepers and `finalize` look at collections in these statuses. -/
def Status.isSwept (status : Status) : Bool :=
  status = .fetching ∨ status = .cancelling ∨ status = .finalizing

namespace Work

variable (w : Work Id)

/-- Only the ledger changes. -/
def withLedger (ledger : Ledger Id) : Work Id := { w with ledger }

/-- An execution of `fetch-page` ends. -/
def endPage (i : ℕ) (ledger : Ledger Id) : Work Id :=
  { w with ledger, pages := w.pages.eraseIdx i }

/-- An execution of `fetch-item` ends. -/
def endFetch (i : ℕ) (ledger : Ledger Id) : Work Id :=
  { w with ledger, fetches := w.fetches.eraseIdx i }

/-- An execution of `fetch-item` that is past its second transaction. -/
def started? (i : ℕ) : Option (Fetch Id) := w.fetches[i]?.filter (·.started)

/-- The first transaction of `processCollectionFetchPage`. -/
def loadPage (status : Status) (scope : ItemKey Id) : Work Id :=
  if status ≠ .fetching then w
  else
    match w.ledger.checkpoints.find? fun cp => cp.scope = scope with
    | none => w
    | some cp => { w with pages := w.pages ++ [cp] }

/-- The first transaction of `processCollectionFetchItem`. -/
def loadItem (status : Status) (provider : Provider) (key : ItemKey Id) : Option (Work Id) :=
  if ¬ Fetchable provider key then none
  else
    match w.ledger.findItem key with
    | none => some w
    | some item =>
      if Ledger.isFetched item.state ∨ status ≠ .fetching then some w
      else some { w with fetches := w.fetches ++ [⟨key, item.attempts, item.evidenceItemId, false⟩] }

/-- An item of a scope. -/
def keyIn (scope : ItemKey Id) (providerItemId : Id) : ItemKey Id := { scope with providerItemId }

/-- What a job does to the ledger, if it can come next. -/
def step (status : Status) (provider : Provider) (w : Work Id) :
    WorkEvent Id → Option (Work Id)
  | .loadPage scope => some (w.loadPage status scope)
  | .commitPage i providerItemIds pageEnd =>
    match w.pages[i]? with
    | some cp =>
      if cp.scope.source = .audit then none
      else
        some (w.endPage i (w.ledger.commitPage cp.id cp.version
          (providerItemIds.map (keyIn cp.scope))
          (nextKind provider cp.scope.source cp.cursorKind pageEnd)))
    | none => none
  | .commitAuditPage i batches exhausted =>
    match w.pages[i]? with
    | some cp =>
      if cp.scope.source ≠ .audit then none
      else
        some (w.endPage i (w.ledger.commitAuditPage cp.id cp.version
          (batches.map fun batch => (keyIn cp.scope batch.1, batch.2))
          (if exhausted then .none else .page)))
    | none => none
  | .expirePage i =>
    w.pages[i]?.map fun cp =>
      w.endPage i (w.ledger.recordException.advance cp.id cp.version .page)
  | .refusePage i => w.pages[i]?.map fun cp => w.endPage i (w.ledger.dropCheckpoint cp.scope)
  | .exhaustPage i =>
    w.pages[i]?.map fun cp =>
      w.endPage i (w.ledger.recordException.advance cp.id cp.version .none)
  | .crashPage i => some (w.endPage i w.ledger)
  | .loadItem key => w.loadItem status provider key
  | .startItem i =>
    match w.fetches[i]? with
    | some job =>
      if job.started then none
      else
        some { w with
          ledger := w.ledger.startItem job.key
          fetches := w.fetches.set i { job with started := true } }
    | none => none
  | .preserveItem i evidenceId derivative =>
    (w.started? i).map fun job =>
      w.endFetch i (w.ledger.preserveItem job.key evidenceId derivative)
  | .skipItem i => (w.started? i).map fun job => w.endFetch i (w.ledger.skipItem job.key)
  | .failItem i =>
    (w.started? i).map fun job => w.endFetch i (w.ledger.failItem job.key (job.attempts + 1))
  | .crashItem i => some (w.endFetch i w.ledger)
  | .recordException => some (w.withLedger w.ledger.recordException)
  | .process evidenceId status children =>
    some (w.withLedger (w.ledger.process evidenceId status children))
  | .indexEvidence evidenceId => some (w.withLedger (w.ledger.indexEvidence evidenceId))
  | .failIndexing evidenceId => some (w.withLedger (w.ledger.failIndexing evidenceId))
  | .recordItemFailure key => some (w.withLedger (w.ledger.recordItemFailure key))
  | .recordEvidenceFailure evidenceId =>
    some (w.withLedger (w.ledger.recordEvidenceFailure evidenceId))
  | .recordExtractFailure key evidenceId =>
    some (w.withLedger (w.ledger.recordExtractFailure key evidenceId))
  | .preserveMessage key evidenceId =>
    if provider = .upload then some (w.withLedger (w.ledger.preserveMessage key evidenceId))
    else none
  | .closeContainer key evidenceId state status =>
    if provider = .upload then
      some (w.withLedger (w.ledger.closeContainer key evidenceId state status))
    else none
  | .sweepItem key => if status.isSwept then some (w.withLedger (w.ledger.sweepItem key)) else none
  | .sweepCheckpoint scope =>
    if status.isSwept then some (w.withLedger (w.ledger.dropCheckpoint scope)) else none
  | .sweepParent evidenceId =>
    if status.isSwept then some (w.withLedger (w.ledger.sweepParent evidenceId)) else none

end Work

/-! ## Discovering, finalizing and the user -/

/-- How far an execution of `processCollectionDiscover` is. -/
inductive Discovery : Type where
  | loaded
  | marked
  deriving DecidableEq

/-- What `processCollectionFinalize` reads in its first transaction. -/
structure Snapshot (Id : Type) where
  status : Status
  ledger : Ledger Id
  /-- the collection had been cancelled; not read, but remembered for the specification -/
  cancelRequested : Bool

/-- An execution of `processCollectionFinalize` that is past its gate. -/
structure Finalizer (Id : Type) where
  snapshot : Snapshot Id
  /-- its second transaction is through -/
  marked : Bool

/-- A completeness that was stored, and what it was decided on. -/
structure Seal (Id : Type) where
  snapshot : Snapshot Id
  completeness : Completeness

/-- A collection with all its executions. -/
structure State (Id : Type) where
  status : Status
  completeness : Option Completeness
  provider : Provider
  work : Work Id
  discoveries : List Discovery
  finalizers : List (Finalizer Id)
  /-- the collection was `cancelling` at some time -/
  cancelRequested : Bool
  /-- everything `finalize` ever stored -/
  seals : List (Seal Id)

/-- A new collection. -/
def State.created (provider : Provider) : State Id where
  status := .created
  completeness := none
  provider
  work := ⟨.empty, [], []⟩
  discoveries := []
  finalizers := []
  cancelRequested := false
  seals := []

/-- What comes next. -/
inductive Event (Id : Type) : Type where
  | work (e : WorkEvent Id)
  /-- `discover` reads the collection -/
  | loadDiscovery
  /-- it moves the collection to `discovering` -/
  | markDiscovery (i : ℕ)
  /-- it claims a container of an upload -/
  | claimContainer (i : ℕ) (key : ItemKey Id) (evidenceId : Id)
  /-- it stores the scopes and moves the collection to `fetching` -/
  | finishDiscovery (i : ℕ) (scopes : List (ItemKey Id))
  /-- it found nothing and moves the collection to `failed` -/
  | failDiscovery (i : ℕ)
  | crashDiscovery (i : ℕ)
  | pause
  | resume
  | cancel
  | retry (stuck : List Id) (cleared : ℕ)
  /-- `finalize` reads the collection -/
  | look
  /-- it moves the collection to `finalizing` -/
  | mark (i : ℕ)
  /-- it stores the completeness -/
  | close (i : ℕ)
  | crashFinalize (i : ℕ)

/-- `decideCompleteness`. -/
def decideCompleteness (wasCancelling : Bool) (preserved errors exceptionCount : ℕ) :
    Completeness :=
  if wasCancelling then .cancelled
  else if preserved = 0 ∧ errors > 0 then .failed
  else if errors > 0 then .incomplete
  else if exceptionCount > 0 then .completeWithExceptions
  else .completeWithinSelectedApiScope

namespace Snapshot

variable (snapshot : Snapshot Id)

/-- The gate of `processCollectionFinalize`. -/
def passes : Bool :=
  snapshot.status.isSwept ∧
    ¬ (snapshot.status = .fetching ∧
      (snapshot.ledger.inFlight > 0 ∨ snapshot.ledger.pageCheckpoints > 0 ∨
        snapshot.ledger.unparsedParents > 0))

/-- The completeness decided on a snapshot. At most 5000 exceptions are read. -/
def completeness : Completeness :=
  let l := snapshot.ledger
  decideCompleteness (snapshot.status = .cancelling)
    (l.count .preserved + l.count .processed + l.count .indexed) (l.count .failed)
    (min l.exceptions 5000)

end Snapshot

/-- `finalStatus`. -/
def finalStatus : Completeness → Status
  | .cancelled => .cancelled
  | .failed => .failed
  | _ => .completed

namespace State

variable (s : State Id)

/-- What `finalize` reads now. -/
def snapshot : Snapshot Id := ⟨s.status, s.work.ledger, s.cancelRequested⟩

/-- Only the work changes. -/
def withWork (work : Work Id) : State Id := { s with work }

/-- The action `retry`. Only items that go back to the provider reopen the collection. -/
def retry (stuck : List Id) (cleared : ℕ) : State Id :=
  let work := s.work.withLedger (s.work.ledger.retry stuck cleared)
  if s.work.ledger.failedItems.isEmpty then { s with work } else { s with work, status := .fetching }

end State

/-- One transaction, if it can come next. -/
def step (s : State Id) : Event Id → Option (State Id)
  | .work e => (s.work.step s.status s.provider e).map s.withWork
  | .loadDiscovery =>
    if s.status = .created ∨ s.status = .discovering ∨ s.status = .fetching then
      some { s with discoveries := s.discoveries ++ [.loaded] }
    else some s
  | .markDiscovery i =>
    match s.discoveries[i]? with
    | some .loaded =>
      some { s with status := .discovering, discoveries := s.discoveries.set i .marked }
    | _ => none
  | .claimContainer i key evidenceId =>
    match s.discoveries[i]? with
    | some .marked =>
      if s.provider = .upload then
        some (s.withWork (s.work.withLedger (s.work.ledger.claimContainer key evidenceId)))
      else none
    | _ => none
  | .finishDiscovery i scopes =>
    match s.discoveries[i]? with
    | some .marked =>
      if s.provider = .upload ∧ ¬ scopes.isEmpty then none
      else
        some { s with
          status := .fetching
          work := s.work.withLedger (s.work.ledger.seedCheckpoints scopes)
          discoveries := s.discoveries.eraseIdx i }
    | _ => none
  | .failDiscovery i =>
    match s.discoveries[i]? with
    | some .marked =>
      some { s with
        status := .failed
        work := s.work.withLedger s.work.ledger.recordException
        discoveries := s.discoveries.eraseIdx i }
    | _ => none
  | .crashDiscovery i => some { s with discoveries := s.discoveries.eraseIdx i }
  | .pause =>
    if s.status = .created ∨ s.status = .discovering ∨ s.status = .fetching ∨
        s.status = .processing then
      some { s with status := .paused }
    else none
  | .resume => if s.status = .paused then some { s with status := .fetching } else none
  | .cancel =>
    if s.status = .created ∨ s.status = .discovering ∨ s.status = .fetching ∨
        s.status = .processing ∨ s.status = .paused then
      some { s with status := .cancelling, cancelRequested := true }
    else none
  | .retry stuck cleared =>
    if s.status = .failed ∨ s.status = .completed then some (s.retry stuck cleared) else none
  | .look =>
    if s.snapshot.passes then some { s with finalizers := s.finalizers ++ [⟨s.snapshot, false⟩] }
    else some s
  | .mark i =>
    match s.finalizers[i]? with
    | some ⟨snapshot, false⟩ =>
      some { s with status := .finalizing, finalizers := s.finalizers.set i ⟨snapshot, true⟩ }
    | _ => none
  | .close i =>
    match s.finalizers[i]? with
    | some ⟨snapshot, true⟩ =>
      some { s with
        status := finalStatus snapshot.completeness
        completeness := some snapshot.completeness
        finalizers := s.finalizers.eraseIdx i
        seals := s.seals ++ [⟨snapshot, snapshot.completeness⟩] }
    | _ => none
  | .crashFinalize i => some { s with finalizers := s.finalizers.eraseIdx i }

end AegCloudDfir.Collection
