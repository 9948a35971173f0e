import AegCloudDfir.Collection.System
import AegCloudDfir.Js.Collections
import AegCloudDfir.Processing.Parse

/-!
# Retrying what could not be processed

The action `retry` takes the items in status `exception` back to `pending`, deletes the rows of
the exceptions list that name them, and enqueues for each of them the stage that reads its
kind: `process.parse`, `process.extract` or `pst.extract`. Whether the stage then does anything
is decided by its own guards.

What the object store, the parsers and the queue answer to a job is its `Outcome`. The rows are
those of one collection, each table in the order of its ids. Of a job only what it writes to
the item it is for is modelled, and no other stage runs meanwhile.

* `frame_of_run` — a job leaves the other items alone.
* `retried_iff` — when nothing that was outstanding is lost.
-/

namespace AegCloudDfir.Processing

open Collection (Status EvidenceKind ProcessingStatus ItemState)

variable {Id : Type}

namespace Retry

/-! ## Rows -/

/-- `ExceptionKind`. -/
inductive ExceptionKind : Type where
  | unavailableItem
  | unsupportedItem
  | nonDownloadable
  | encryptedItem
  | rightsManaged
  | corruptItem
  | throttledSkip
  | expiredCheckpoint
  | permissionDenied
  | apiError
  | apiExportDerivative
  | quarantined
  | objectMissing
  | other
  deriving DecidableEq

/-- What a row of the exceptions list is about: `detail.evidenceItemId`, or else its
`providerItemId`, which is `pst:{id}` for a container. -/
inductive Subject (Id : Type) : Type where
  | evidence (evidenceItemId : Id)
  | message (providerItemId : Id)
  | container (evidenceItemId : Id)
  deriving DecidableEq

/-- A row of `collection_exceptions`. -/
structure ExceptionRow (Id : Type) where
  kind : ExceptionKind
  subject : Subject Id
  deriving DecidableEq

/-- A row of `evidence_items`, with what else decides about its jobs. -/
structure Evidence (Id : Type) where
  kind : EvidenceKind
  processingStatus : ProcessingStatus
  /-- `processingDetail` says that the object is missing -/
  objectMissing : Bool
  /-- `malwareStatus` says so -/
  malwareObjectMissing : Bool
  custodianId : Option Id
  providerItemId : Id
  hasBlob : Bool
  /-- there is a `file_text` -/
  hasFileText : Bool
  /-- how many messages were extracted from a container -/
  members : ℕ

/-- A row of `collection_items`. -/
structure LedgerRow (Id : Type) where
  state : ItemState
  evidenceItemId : Option Id

/-- A collection, as far as a retry goes. -/
structure State (Id : Type) where
  status : Status
  evidence : JsMap Id (Evidence Id)
  ledger : List (LedgerRow Id)
  exceptions : List (ExceptionRow Id)
  /-- the ids are a primary key -/
  nodup : (evidence.map Prod.fst).Nodup

/-- The row names the item. -/
def ExceptionRow.Names (row : ExceptionRow Id) (id : Id) (item : Evidence Id) : Prop :=
  row.subject = .evidence id ∨
    (item.kind = .email ∧ row.subject = .message item.providerItemId) ∨
      (item.kind = .container ∧ row.subject = .container id)

/-! ## The action -/

/-- `RETRY_INDEX_CAP`. -/
def retryIndexCap : ℕ := 50000

/-- `RETRY_ITEM_CAP`. -/
def retryItemCap : ℕ := 1000

/-- The stages of processing. -/
inductive Topic : Type where
  | parse
  | extract
  | pstExtract
  deriving DecidableEq

/-- A job that a retry enqueues. -/
structure Job (Id : Type) where
  evidenceItemId : Id
  topic : Topic
  deriving DecidableEq

/-- `processingRetryOutbox`. -/
def processingRetryOutbox (id : Id) (item : Evidence Id) : Option (Job Id) :=
  match item.kind with
  | .email => some ⟨id, .parse⟩
  | .container => item.custodianId.map fun _ => ⟨id, .pstExtract⟩
  | _ => some ⟨id, .extract⟩

/-- `allFailed`: failed items whose bytes are here are indexed again, and are `preserved` until
then. -/
def reindex : ℕ → List (LedgerRow Id) → List (LedgerRow Id)
  | 0, rows => rows
  | _, [] => []
  | cap + 1, row :: rows =>
    if row.state = .failed then
      (if row.evidenceItemId.isSome then { row with state := .preserved } else row) ::
        reindex cap rows
    else row :: reindex (cap + 1) rows

namespace State

variable (s : State Id)

/-- `failedItems`: those go back to the provider. -/
def failedItems : List (LedgerRow Id) :=
  (((s.ledger.filter fun row => row.state = .failed).take retryIndexCap).filter fun row =>
    row.evidenceItemId.isNone).take retryItemCap

/-- `stuckItems`. -/
def stuckItems : List (Id × Evidence Id) :=
  (s.evidence.filter fun e => e.2.processingStatus = .exception ∧ ¬ e.2.malwareObjectMissing ∧
    ¬ e.2.objectMissing).take retryItemCap

/-- `processingJobs`. -/
def processingJobs : List (Job Id) :=
  s.stuckItems.filterMap fun e => processingRetryOutbox e.1 e.2

/-- `retried`. -/
def retried : List Id := s.processingJobs.map (·.evidenceItemId)

end State

/-- The rows keep their ids. -/
theorem nodup_map {m : JsMap Id (Evidence Id)} {p : Id → Bool} {f : Evidence Id → Evidence Id}
    (h : (m.map Prod.fst).Nodup) :
    ((m.map fun e => if p e.1 then (e.1, f e.2) else e).map Prod.fst).Nodup := by
  rw [List.map_map]
  refine (List.map_congr_left fun e _ => ?_) ▸ h
  by_cases he : p e.1 <;> simp [he]

variable [DecidableEq Id]

/-- `toClear`. -/
def clears (retried : List Id) (row : ExceptionRow Id) : Bool :=
  match row.subject with
  | .evidence id => row.kind ≠ .objectMissing ∧ id ∈ retried
  | _ => false

/-- `evidenceItem.updateMany` of the items with some ids. -/
def State.updateEvidence (s : State Id) (p : Id → Bool) (f : Evidence Id → Evidence Id) :
    State Id where
  status := s.status
  evidence := s.evidence.map fun e => if p e.1 then (e.1, f e.2) else e
  ledger := s.ledger
  exceptions := s.exceptions
  nodup := nodup_map s.nodup

/-- The action `retry`. -/
def retry (s : State Id) : Option (State Id) :=
  if s.status = .failed ∨ s.status = .completed then
    let s' := s.updateEvidence (fun id => id ∈ s.retried) fun item =>
      { item with processingStatus := .pending }
    some { s' with
      status := if s.failedItems.isEmpty then s.status else .fetching
      ledger := reindex retryIndexCap s.ledger
      exceptions := s.exceptions.filter fun row => ¬ clears s.retried row }
  else none

/-! ## The jobs -/

/-- What becomes of a job that its stage lets through. -/
inductive Outcome : Type where
  /-- it succeeds -/
  | done
  /-- the item cannot be read, for good -/
  | refused (kind : ExceptionKind)
  /-- the object is not in the store -/
  | objectMissing
  /-- it fails at every attempt -/
  | died
  deriving DecidableEq

namespace State

variable (s : State Id)

/-- An update of one item. -/
def setEvidence (id : Id) (f : Evidence Id → Evidence Id) : State Id :=
  s.updateEvidence (fun other => other = id) f

/-- `recordException`. -/
def recordException (row : ExceptionRow Id) : State Id :=
  { s with exceptions := s.exceptions ++ [row] }

/-- The ledger rows of an item. -/
def setLedger (id : Id) (p : ItemState → Bool) (state : ItemState) : State Id :=
  { s with
    ledger := s.ledger.map fun row =>
      if row.evidenceItemId = some id ∧ p row.state then { row with state } else row }

/-- `recordMissingObject`. -/
def recordMissingObject (id : Id) : State Id :=
  let s' := s.setEvidence id fun item =>
    { item with processingStatus := .exception, objectMissing := true }
  if s.exceptions.any fun row => row.kind = .objectMissing ∧ row.subject = .evidence id then s'
  else s'.recordException ⟨.objectMissing, .evidence id⟩

/-- The item is refused. -/
def markException (id : Id) (row : ExceptionRow Id) : State Id :=
  (s.recordException row).setEvidence id fun item =>
    { item with processingStatus := .exception, objectMissing := false }

end State

/-- The state of the ledger row of a container. -/
def ledgerState (ledger : List (LedgerRow Id)) (id : Id) : Option ItemState :=
  (ledger.find? fun row => row.evidenceItemId = some id).map (·.state)

/-- `processParse`. A job that died leaves the item as it is. -/
def processParse (s : State Id) (id : Id) (outcome : Outcome) : State Id :=
  match s.evidence.get? id with
  | none => s
  | some item =>
    if item.kind ≠ .email then s
    else if isDone item.processingStatus then s
    else if ¬ item.hasBlob then s
    else
      match outcome with
      | .done => s.setEvidence id fun item =>
        { item with processingStatus := .parsed, objectMissing := false }
      | .refused kind => s.markException id ⟨kind, .message item.providerItemId⟩
      | .objectMissing => s.recordMissingObject id
      | .died => s.setLedger id (fun state => ¬ Collection.Ledger.isSettled state) .failed

/-- `processExtract`. -/
def processExtract (s : State Id) (id : Id) (outcome : Outcome) : State Id :=
  match s.evidence.get? id with
  | none => s
  | some item =>
    if item.kind = .email then s
    else if item.hasFileText then s
    else if ¬ item.hasBlob then s
    else
      match outcome with
      | .done => s.setEvidence id fun item =>
        { item with processingStatus := .extracted, hasFileText := true }
      | .refused kind => s.markException id ⟨kind, .evidence id⟩
      | .objectMissing => s.recordMissingObject id
      | .died => s.setLedger id (fun state => ¬ Collection.Ledger.isSettled state) .failed

/-- `recordTerminalFailure` of `pst.extract`. -/
def recordExtractFailure (s : State Id) (id : Id) : State Id :=
  let s' := s.setEvidence id fun item =>
    if item.processingStatus = .pending then
      { item with processingStatus := .exception, objectMissing := false }
    else item
  if (ledgerState s.ledger id).any fun state => ¬ Collection.Ledger.isSettled state then
    (s'.recordException ⟨.apiError, .container id⟩).setLedger id (fun _ => true) .failed
  else s'

/-- `processPstExtract`. It does not expect its object to be missing. -/
def processPstExtract (s : State Id) (id : Id) (outcome : Outcome) : State Id :=
  match s.evidence.get? id with
  | none => s
  | some item =>
    if ¬ item.hasBlob then s
    else if item.kind ≠ .container then s
    else if s.status ≠ .fetching then s
    else if item.members > 0 ∧ ledgerState s.ledger id = some .processed then s
    else
      match outcome with
      | .done =>
        (s.setEvidence id fun item => { item with processingStatus := .extracted }).setLedger id
          (fun _ => true) .processed
      | .refused kind =>
        (s.markException id ⟨kind, .container id⟩).setLedger id (fun _ => true)
          (if kind = .encryptedItem then .skipped else .failed)
      | .objectMissing | .died => recordExtractFailure s id

/-- A worker runs a job to its end. -/
def runJob (s : State Id) (job : Job Id) (outcome : Outcome) : State Id :=
  match job.topic with
  | .parse => processParse s job.evidenceItemId outcome
  | .extract => processExtract s job.evidenceItemId outcome
  | .pstExtract => processPstExtract s job.evidenceItemId outcome

/-- Jobs, one after the other. -/
def runJobs (s : State Id) (runs : List (Job Id × Outcome)) : State Id :=
  runs.foldl (fun s run => runJob s run.1 run.2) s

/-! ## What is claimed -/

/-- The item is processed, or in status `exception` with a row that names it. -/
def Explained (s : State Id) (id : Id) : Prop :=
  ∃ item, s.evidence.get? id = some item ∧
    (isDone item.processingStatus ∨
      item.processingStatus = .exception ∧ ∃ row ∈ s.exceptions, row.Names id item)

/-- The stage of a job lets the item through, and what becomes of the job is recorded. -/
def Passes (s : State Id) (job : Job Id) (outcome : Outcome) (item : Evidence Id) : Prop :=
  match job.topic with
  | .parse => item.hasBlob ∧ outcome ≠ .died
  | .extract => item.hasBlob ∧ ¬ item.hasFileText ∧ outcome ≠ .died
  | .pstExtract =>
    let state := ledgerState (reindex retryIndexCap s.ledger) job.evidenceItemId
    item.hasBlob ∧ s.failedItems ≠ [] ∧ ¬ (item.members > 0 ∧ state = some .processed) ∧
      (outcome = .objectMissing ∨ outcome = .died →
        (state.any fun state => ¬ Collection.Ledger.isSettled state) ∨
          ∃ row ∈ s.exceptions, ¬ clears s.retried row ∧ row.Names job.evidenceItemId item)

/-- So nothing is lost of the item of a job. -/
def Recovers (s : State Id) (job : Job Id) (outcome : Outcome) : Prop :=
  ∀ item, s.evidence.get? job.evidenceItemId = some item → Passes s job outcome item

/-! ## What a job leaves alone -/

/-- Nothing that concerns the item changes, except that another item gets a row. -/
structure Frame (id : Id) (s s' : State Id) : Prop where
  status : s'.status = s.status
  evidence : s'.evidence.get? id = s.evidence.get? id
  ledger : ledgerState s'.ledger id = ledgerState s.ledger id
  kept : s.exceptions ⊆ s'.exceptions
  added : ∀ row ∈ s'.exceptions,
    row ∈ s.exceptions ∨ row.subject ≠ .evidence id ∧ row.subject ≠ .container id

section Frames

variable {s s₁ s₂ : State Id} {id other : Id}

theorem Frame.refl (id : Id) (s : State Id) : Frame id s s :=
  ⟨rfl, rfl, rfl, List.Subset.refl _, fun _ h => .inl h⟩

theorem Frame.trans (h : Frame id s s₁) (h' : Frame id s₁ s₂) : Frame id s s₂ where
  status := h'.status.trans h.status
  evidence := h'.evidence.trans h.evidence
  ledger := h'.ledger.trans h.ledger
  kept := fun _ hrow => h'.kept (h.kept hrow)
  added row hrow := by
    rcases h'.added row hrow with hold | hnew
    · exact h.added row hold
    · exact .inr hnew

theorem get?_updateEvidence {p : Id → Bool} {f : Evidence Id → Evidence Id} :
    (s.updateEvidence p f).evidence.get? id =
      (s.evidence.get? id).map fun item => if p id then f item else item := by
  simp only [State.updateEvidence, JsMap.get?, List.find?_map, Option.map_map]
  have hkey : ((fun e : Id × Evidence Id => decide (e.1 = id)) ∘
      fun e => if p e.1 then (e.1, f e.2) else e) = fun e => decide (e.1 = id) := by
    funext e
    by_cases he : p e.1 <;> simp [he]
  rw [hkey]
  apply Option.map_congr
  intro e he
  have hid := List.find?_some he
  rw [decide_eq_true_eq] at hid
  by_cases hp : p id <;> simp [hid, hp]

theorem get?_setEvidence {f : Evidence Id → Evidence Id} :
    (s.setEvidence other f).evidence.get? id =
      (s.evidence.get? id).map fun item => if id = other then f item else item := by
  rw [State.setEvidence, get?_updateEvidence]
  simp only [decide_eq_true_eq]

theorem frame_setEvidence {f : Evidence Id → Evidence Id} (h : id ≠ other) :
    Frame id s (s.setEvidence other f) where
  status := rfl
  evidence := by
    rw [get?_setEvidence]
    simp [h]
  ledger := rfl
  kept := List.Subset.refl _
  added _ hrow := .inl hrow

theorem frame_recordException {kind : ExceptionKind} {subject : Subject Id}
    (h : subject ≠ .evidence id ∧ subject ≠ .container id) :
    Frame id s (s.recordException ⟨kind, subject⟩) where
  status := rfl
  evidence := rfl
  ledger := rfl
  kept := List.subset_append_left _ _
  added row' hrow := by
    rcases List.mem_append.mp hrow with hold | hnew
    · exact .inl hold
    · obtain rfl := List.mem_singleton.mp hnew
      exact .inr h

theorem frame_setLedger {p : ItemState → Bool} {state : ItemState} (h : id ≠ other) :
    Frame id s (s.setLedger other p state) where
  status := rfl
  evidence := rfl
  ledger := by
    rw [ledgerState, State.setLedger, List.find?_map]
    have hkey : ((fun row : LedgerRow Id => decide (row.evidenceItemId = some id)) ∘ fun row =>
        if row.evidenceItemId = some other ∧ p row.state then { row with state } else row) =
          fun row => decide (row.evidenceItemId = some id) := by
      funext row
      by_cases hrow : row.evidenceItemId = some other ∧ p row.state <;> simp [hrow]
    rw [hkey, Option.map_map, ledgerState]
    apply Option.map_congr
    intro row hrow
    have hid := List.find?_some hrow
    rw [decide_eq_true_eq] at hid
    simp [hid, h]
  kept := List.Subset.refl _
  added _ hrow := .inl hrow

omit [DecidableEq Id] in
theorem other_evidence (h : id ≠ other) :
    (Subject.evidence other : Subject Id) ≠ .evidence id ∧
      (Subject.evidence other : Subject Id) ≠ .container id :=
  ⟨fun heq => h (Subject.evidence.inj heq).symm, nofun⟩

omit [DecidableEq Id] in
theorem other_container (h : id ≠ other) :
    (Subject.container other : Subject Id) ≠ .evidence id ∧
      (Subject.container other : Subject Id) ≠ .container id :=
  ⟨nofun, fun heq => h (Subject.container.inj heq).symm⟩

omit [DecidableEq Id] in
theorem other_message (key : Id) : (Subject.message key : Subject Id) ≠ .evidence id ∧
    (Subject.message key : Subject Id) ≠ .container id := ⟨nofun, nofun⟩

/-- A job that does not pass a guard does nothing. -/
theorem frame_guard {p : Prop} [Decidable p] {s' : State Id} (h : Frame id s s') :
    Frame id s (if p then s else s') := by
  split
  · exact .refl id s
  · exact h

theorem frame_markException {kind : ExceptionKind} {subject : Subject Id} (h : id ≠ other)
    (hrow : subject ≠ .evidence id ∧ subject ≠ .container id) :
    Frame id s (s.markException other ⟨kind, subject⟩) :=
  (frame_recordException hrow).trans (frame_setEvidence h)

theorem frame_recordMissingObject (h : id ≠ other) : Frame id s (s.recordMissingObject other) := by
  rw [State.recordMissingObject]
  split
  · exact frame_setEvidence h
  · exact (frame_setEvidence h).trans (frame_recordException (other_evidence h))

theorem frame_recordExtractFailure (h : id ≠ other) : Frame id s (recordExtractFailure s other) := by
  rw [recordExtractFailure]
  split
  · exact (frame_setEvidence h).trans
      ((frame_recordException (other_container h)).trans (frame_setLedger h))
  · exact frame_setEvidence h

/-- **A job leaves the other items alone.** -/
theorem frame_of_run {job : Job Id} {outcome : Outcome} (h : id ≠ job.evidenceItemId) :
    Frame id s (runJob s job outcome) := by
  rw [runJob]
  split
  · rw [processParse.eq_def]
    split
    · exact .refl id s
    · refine frame_guard (frame_guard (frame_guard ?_))
      cases outcome with
      | done => exact frame_setEvidence h
      | refused kind => exact frame_markException h (other_message _)
      | objectMissing => exact frame_recordMissingObject h
      | died => exact frame_setLedger h
  · rw [processExtract.eq_def]
    split
    · exact .refl id s
    · refine frame_guard (frame_guard (frame_guard ?_))
      cases outcome with
      | done => exact frame_setEvidence h
      | refused kind => exact frame_markException h (other_evidence h)
      | objectMissing => exact frame_recordMissingObject h
      | died => exact frame_setLedger h
  · rw [processPstExtract.eq_def]
    split
    · exact .refl id s
    · refine frame_guard (frame_guard (frame_guard (frame_guard ?_)))
      cases outcome with
      | done => exact (frame_setEvidence h).trans (frame_setLedger h)
      | refused kind => exact (frame_markException h (other_container h)).trans (frame_setLedger h)
      | objectMissing | died => exact frame_recordExtractFailure h

theorem frame_of_runs {runs : List (Job Id × Outcome)}
    (h : ∀ run ∈ runs, id ≠ run.1.evidenceItemId) : Frame id s (runJobs s runs) := by
  induction runs generalizing s with
  | nil => exact .refl id s
  | cons run runs ih =>
    obtain ⟨hrun, hruns⟩ := List.forall_mem_cons.mp h
    exact (frame_of_run hrun).trans (ih hruns)

/-! ## What becomes of an item -/

variable {item : Evidence Id}

theorem Frame.explained (h : Frame id s s₁) (hexplained : Explained s id) : Explained s₁ id := by
  obtain ⟨item, hitem, hdone | ⟨hexception, row, hrow, hnames⟩⟩ := hexplained
  · exact ⟨item, h.evidence.trans hitem, .inl hdone⟩
  · exact ⟨item, h.evidence.trans hitem, .inr ⟨hexception, row, h.kept hrow, hnames⟩⟩

/-- A pending item stays unexplained. -/
theorem Frame.not_explained (h : Frame id s s₁) (hitem : s.evidence.get? id = some item)
    (hpending : item.processingStatus = .pending) : ¬ Explained s₁ id := by
  rintro ⟨other, hother, hexplained⟩
  obtain rfl := Option.some.inj ((h.evidence.trans hitem).symm.trans hother)
  rw [hpending] at hexplained
  rcases hexplained with hdone | ⟨hexception, -⟩
  · cases hdone
  · cases hexception

/-- The rows about a container stay. -/
theorem Frame.names_iff (h : Frame id s s₁) (hkind : item.kind = .container) :
    (∃ row ∈ s₁.exceptions, row.Names id item) ↔ ∃ row ∈ s.exceptions, row.Names id item := by
  refine ⟨fun ⟨row, hrow, hnames⟩ => ⟨row, ?_, hnames⟩, fun ⟨row, hrow, hnames⟩ =>
    ⟨row, h.kept hrow, hnames⟩⟩
  refine (h.added row hrow).resolve_right fun hother => ?_
  rcases hnames with hsubject | ⟨hemail, -⟩ | ⟨-, hsubject⟩
  · exact hother.1 hsubject
  · rw [hkind] at hemail
    cases hemail
  · exact hother.2 hsubject

/-- An exception with its row. -/
theorem explained_markException {kind : ExceptionKind} {subject : Subject Id}
    (hitem : s.evidence.get? id = some item)
    (hnames : ExceptionRow.Names ⟨kind, subject⟩ id item) :
    Explained (s.markException id ⟨kind, subject⟩) id := by
  have hget : (s.markException id ⟨kind, subject⟩).evidence.get? id =
      some { item with processingStatus := .exception, objectMissing := false } := by
    have hsame : (s.recordException ⟨kind, subject⟩).evidence.get? id = some item := hitem
    rw [State.markException, get?_setEvidence, hsame, Option.map_some, if_pos rfl]
  have hrow : ⟨kind, subject⟩ ∈ (s.markException id ⟨kind, subject⟩).exceptions :=
    List.mem_append_right _ (List.mem_singleton_self _)
  exact ⟨_, hget, .inr ⟨rfl, _, hrow, hnames⟩⟩

/-- A missing object has its row. -/
theorem explained_recordMissingObject (hitem : s.evidence.get? id = some item) :
    Explained (s.recordMissingObject id) id := by
  have hget : (s.setEvidence id fun item =>
      { item with processingStatus := .exception, objectMissing := true }).evidence.get? id =
        some { item with processingStatus := .exception, objectMissing := true } := by
    rw [get?_setEvidence, hitem, Option.map_some, if_pos rfl]
  rw [State.recordMissingObject]
  split
  · rename_i hany
    obtain ⟨row, hrow, hrow'⟩ := List.any_eq_true.mp hany
    exact ⟨_, hget, .inr ⟨rfl, row, hrow, .inl (of_decide_eq_true hrow').2⟩⟩
  · exact ⟨_, hget, .inr ⟨rfl, _, List.mem_append_right _ (List.mem_singleton_self _), .inl rfl⟩⟩

/-- A processed item. -/
theorem explained_done {f : Evidence Id → Evidence Id} (hitem : s.evidence.get? id = some item)
    (hdone : isDone (f item).processingStatus) : Explained (s.setEvidence id f) id := by
  refine ⟨f item, ?_, .inl hdone⟩
  rw [get?_setEvidence, hitem, Option.map_some, if_pos rfl]

/-- **A job of `process.parse`** whose item is pending. -/
theorem explained_processParse {outcome : Outcome} (hitem : s.evidence.get? id = some item)
    (hpending : item.processingStatus = .pending) (hkind : item.kind = .email)
    (hframe : Frame id (processParse s id outcome) s₁) :
    Explained s₁ id ↔ item.hasBlob ∧ outcome ≠ .died := by
  simp only [processParse, hitem] at hframe
  rw [if_neg (not_not.mpr hkind), hpending, if_neg (by decide)] at hframe
  by_cases hblob : item.hasBlob
  · rw [if_neg (not_not.mpr hblob)] at hframe
    refine Iff.trans ?_ (and_iff_right hblob).symm
    cases outcome with
    | done => exact iff_of_true (hframe.explained (explained_done hitem rfl)) (by rintro ⟨⟩)
    | refused kind =>
      refine iff_of_true (hframe.explained (explained_markException hitem ?_)) (by rintro ⟨⟩)
      exact .inr (.inl ⟨hkind, rfl⟩)
    | objectMissing =>
      exact iff_of_true (hframe.explained (explained_recordMissingObject hitem)) (by rintro ⟨⟩)
    | died => exact iff_of_false (hframe.not_explained hitem hpending) (not_not.mpr rfl)
  · rw [if_pos hblob] at hframe
    exact iff_of_false (hframe.not_explained hitem hpending) fun h => hblob h.1

/-- **A job of `process.extract`** whose item is pending. -/
theorem explained_processExtract {outcome : Outcome} (hitem : s.evidence.get? id = some item)
    (hpending : item.processingStatus = .pending) (hkind : item.kind ≠ .email)
    (hframe : Frame id (processExtract s id outcome) s₁) :
    Explained s₁ id ↔ item.hasBlob ∧ ¬ item.hasFileText ∧ outcome ≠ .died := by
  simp only [processExtract, hitem] at hframe
  rw [if_neg hkind] at hframe
  by_cases htext : item.hasFileText
  · rw [if_pos htext] at hframe
    exact iff_of_false (hframe.not_explained hitem hpending) fun h => h.2.1 htext
  · rw [if_neg htext] at hframe
    by_cases hblob : item.hasBlob
    · rw [if_neg (not_not.mpr hblob)] at hframe
      refine Iff.trans ?_ ((and_iff_right hblob).trans (and_iff_right htext)).symm
      cases outcome with
      | done => exact iff_of_true (hframe.explained (explained_done hitem rfl)) (by rintro ⟨⟩)
      | refused kind =>
        exact iff_of_true (hframe.explained (explained_markException hitem (.inl rfl))) (by rintro ⟨⟩)
      | objectMissing =>
        exact iff_of_true (hframe.explained (explained_recordMissingObject hitem)) (by rintro ⟨⟩)
      | died => exact iff_of_false (hframe.not_explained hitem hpending) (not_not.mpr rfl)
    · rw [if_pos hblob] at hframe
      exact iff_of_false (hframe.not_explained hitem hpending) fun h => hblob h.1

/-- Only the ledger changes. -/
theorem explained_setLedger {p : ItemState → Bool} {state : ItemState} (h : Explained s id) :
    Explained (s.setLedger id p state) id := h

/-- A job of `pst.extract` that died. -/
theorem explained_recordExtractFailure (hitem : s.evidence.get? id = some item)
    (hpending : item.processingStatus = .pending) (hkind : item.kind = .container)
    (hframe : Frame id (recordExtractFailure s id) s₁) :
    Explained s₁ id ↔
      ((ledgerState s.ledger id).any fun state => ¬ Collection.Ledger.isSettled state) ∨
        ∃ row ∈ s.exceptions, row.Names id item := by
  have hget : (s.setEvidence id fun item =>
      if item.processingStatus = .pending then
        { item with processingStatus := .exception, objectMissing := false }
      else item).evidence.get? id =
        some { item with processingStatus := .exception, objectMissing := false } := by
    rw [get?_setEvidence, hitem, Option.map_some, if_pos rfl, if_pos hpending]
  rw [recordExtractFailure] at hframe
  split at hframe
  · rename_i hopen
    refine iff_of_true (hframe.explained (explained_setLedger ?_)) (.inl hopen)
    exact ⟨_, hget, .inr ⟨rfl, _, List.mem_append_right _ (List.mem_singleton_self _),
      .inr (.inr ⟨hkind, rfl⟩)⟩⟩
  · rename_i hsettled
    rw [or_iff_right hsettled]
    have hnames : (∃ row ∈ s₁.exceptions, row.Names id item) ↔ _ := hframe.names_iff hkind
    refine Iff.trans ⟨?_, fun ⟨row, hrow, hrownames⟩ => ?_⟩ hnames
    · rintro ⟨other, hother, hdone | ⟨-, row, hrow, hrownames⟩⟩
      · obtain rfl := Option.some.inj ((hframe.evidence.trans hget).symm.trans hother)
        cases hdone
      · obtain rfl := Option.some.inj ((hframe.evidence.trans hget).symm.trans hother)
        exact ⟨row, hrow, hrownames⟩
    · exact ⟨_, hframe.evidence.trans hget, .inr ⟨rfl, row, hrow, hrownames⟩⟩

/-- **A job of `pst.extract`** whose container is pending. -/
theorem explained_processPstExtract {outcome : Outcome} (hitem : s.evidence.get? id = some item)
    (hpending : item.processingStatus = .pending) (hkind : item.kind = .container)
    (hframe : Frame id (processPstExtract s id outcome) s₁) :
    Explained s₁ id ↔ item.hasBlob ∧ s.status = .fetching ∧
      ¬ (item.members > 0 ∧ ledgerState s.ledger id = some .processed) ∧
        (outcome = .objectMissing ∨ outcome = .died →
          ((ledgerState s.ledger id).any fun state => ¬ Collection.Ledger.isSettled state) ∨
            ∃ row ∈ s.exceptions, row.Names id item) := by
  simp only [processPstExtract, hitem] at hframe
  by_cases hblob : item.hasBlob
  · rw [if_neg (not_not.mpr hblob), if_neg (not_not.mpr hkind)] at hframe
    by_cases hstatus : s.status = .fetching
    · rw [if_neg (not_not.mpr hstatus)] at hframe
      by_cases hread : item.members > 0 ∧ ledgerState s.ledger id = some .processed
      · rw [if_pos hread] at hframe
        exact iff_of_false (hframe.not_explained hitem hpending) fun h => h.2.2.1 hread
      · rw [if_neg hread] at hframe
        refine Iff.trans ?_ ((and_iff_right hblob).trans ((and_iff_right hstatus).trans
          (and_iff_right hread))).symm
        cases outcome with
        | done =>
          refine iff_of_true (hframe.explained (explained_setLedger (explained_done hitem rfl))) ?_
          rintro (h | h) <;> cases h
        | refused kind =>
          refine iff_of_true (hframe.explained (explained_setLedger
            (explained_markException hitem (.inr (.inr ⟨hkind, rfl⟩))))) ?_
          rintro (h | h) <;> cases h
        | objectMissing =>
          rw [imp_iff_right (.inl rfl)]
          exact explained_recordExtractFailure hitem hpending hkind hframe
        | died =>
          rw [imp_iff_right (.inr rfl)]
          exact explained_recordExtractFailure hitem hpending hkind hframe
    · rw [if_pos hstatus] at hframe
      exact iff_of_false (hframe.not_explained hitem hpending) fun h => hstatus h.2.1
  · rw [if_pos hblob] at hframe
    exact iff_of_false (hframe.not_explained hitem hpending) fun h => hblob h.1

end Frames

/-! ## Retrying -/

section Retrying

variable {s s' : State Id} {id : Id} {item : Evidence Id} {job : Job Id}

omit [DecidableEq Id] in
/-- The stage of a job is the one that reads the kind of its item. -/
theorem of_processingRetryOutbox (h : processingRetryOutbox id item = some job) :
    job.evidenceItemId = id ∧
      ((job.topic = .parse ∧ item.kind = .email) ∨ (job.topic = .pstExtract ∧ item.kind = .container) ∨
        (job.topic = .extract ∧ item.kind ≠ .email ∧ item.kind ≠ .container)) := by
  rw [processingRetryOutbox.eq_def] at h
  split at h
  · rename_i hkind
    cases h
    exact ⟨rfl, .inl ⟨rfl, hkind⟩⟩
  · rename_i hkind
    obtain ⟨custodianId, -, rfl⟩ := Option.map_eq_some_iff.mp h
    exact ⟨rfl, .inr (.inl ⟨rfl, hkind⟩)⟩
  · rename_i hemail hcontainer
    cases h
    exact ⟨rfl, .inr (.inr ⟨rfl, hemail, hcontainer⟩)⟩

/-- A job is for an item in status `exception`. -/
theorem of_mem_processingJobs (h : job ∈ s.processingJobs) :
    ∃ item, s.evidence.get? job.evidenceItemId = some item ∧ item.processingStatus = .exception ∧
      processingRetryOutbox job.evidenceItemId item = some job := by
  obtain ⟨⟨id, item⟩, he, hjob⟩ := List.mem_filterMap.mp h
  obtain ⟨rfl, -⟩ := of_processingRetryOutbox hjob
  obtain ⟨hmem, hstuck⟩ := List.mem_filter.mp (List.mem_of_mem_take he)
  exact ⟨item, (JsMap.mem_iff_get? s.nodup).mp hmem, (of_decide_eq_true hstuck).1, hjob⟩

omit [DecidableEq Id] in
/-- There is one job for an item. -/
theorem nodup_retried (s : State Id) : s.retried.Nodup := by
  have hstuck : (s.stuckItems.map Prod.fst).Nodup :=
    s.nodup.sublist (((List.take_sublist _ _).trans List.filter_sublist).map Prod.fst)
  rw [State.retried, State.processingJobs, List.Nodup, List.pairwise_map, List.pairwise_filterMap]
  rw [List.Nodup, List.pairwise_map] at hstuck
  refine hstuck.imp fun {e e'} hne job hjob job' hjob' => ?_
  rw [(of_processingRetryOutbox hjob).1, (of_processingRetryOutbox hjob').1]
  exact hne

/-- What a retry leaves behind. -/
theorem retry_cases (h : retry s = some s') :
    (s'.status = .fetching ↔ s.failedItems ≠ []) ∧
      (∀ id, s'.evidence.get? id = (s.evidence.get? id).map fun item =>
        if id ∈ s.retried then { item with processingStatus := .pending } else item) ∧
      s'.ledger = reindex retryIndexCap s.ledger ∧
      ∀ row, row ∈ s'.exceptions ↔ row ∈ s.exceptions ∧ ¬ clears s.retried row := by
  rw [retry] at h
  split at h
  · rename_i hstatus
    cases h
    refine ⟨?_, fun id => ?_, rfl, fun row => ?_⟩
    · change (if s.failedItems.isEmpty then s.status else .fetching) = .fetching ↔ _
      rw [← List.isEmpty_eq_false_iff]
      split
      · rename_i hempty
        refine iff_of_false (fun hfetching => ?_) (by simp [hempty])
        rw [hfetching] at hstatus
        rcases hstatus with h | h <;> cases h
      · rename_i hnonempty
        exact iff_of_true rfl (Bool.eq_false_of_not_eq_true hnonempty)
    · have hget : (s.updateEvidence (fun id => id ∈ s.retried) fun item =>
          { item with processingStatus := .pending }).evidence.get? id = _ := get?_updateEvidence
      simp only [decide_eq_true_eq] at hget
      exact hget
    · simp [List.mem_filter]
  · cases h

/-- What a run of jobs does to the item of one of them. -/
theorem explained_of_run {runs : List (Job Id × Outcome)} {run : Job Id × Outcome}
    (hretry : retry s = some s') (hruns : (runs.map Prod.fst).Perm s.processingJobs)
    (hrun : run ∈ runs) :
    Explained (runJobs s' runs) run.1.evidenceItemId ↔ Recovers s run.1 run.2 := by
  obtain ⟨hstatus, hevidence, hledger, hexceptions⟩ := retry_cases hretry
  obtain ⟨job, outcome⟩ := run
  have hjob : job ∈ s.processingJobs := hruns.mem_iff.mp (List.mem_map_of_mem hrun)
  obtain ⟨item, hitem, -, hstage⟩ := of_mem_processingJobs hjob
  -- the other runs are for other items
  obtain ⟨before, after, rfl⟩ := List.append_of_mem hrun
  have hnodup : ((before ++ (job, outcome) :: after).map fun run => run.1.evidenceItemId).Nodup := by
    have hids := (hruns.map fun job : Job Id => job.evidenceItemId).nodup_iff.mpr (nodup_retried s)
    rw [List.map_map] at hids
    exact hids
  rw [List.map_append, List.map_cons, List.nodup_middle, List.nodup_cons] at hnodup
  have hother : ∀ run ∈ before ++ after, job.evidenceItemId ≠ run.1.evidenceItemId := by
    intro run hrun heq
    refine hnodup.1 ?_
    rw [← List.map_append]
    exact List.mem_map.mpr ⟨run, hrun, heq.symm⟩
  have hbefore : Frame job.evidenceItemId s' (runJobs s' before) :=
    frame_of_runs fun run hrun => hother run (List.mem_append_left _ hrun)
  have hafter : Frame job.evidenceItemId (runJob (runJobs s' before) job outcome)
      (runJobs s' (before ++ (job, outcome) :: after)) := by
    have hsplit : runJobs s' (before ++ (job, outcome) :: after) =
        runJobs (runJob (runJobs s' before) job outcome) after := List.foldl_append
    rw [hsplit]
    exact frame_of_runs fun run hrun => hother run (List.mem_append_right _ hrun)
  have hretried : job.evidenceItemId ∈ s.retried := List.mem_map_of_mem hjob
  have hpending : (runJobs s' before).evidence.get? job.evidenceItemId =
      some { item with processingStatus := .pending } := by
    rw [hbefore.evidence, hevidence, hitem, Option.map_some, if_pos hretried]
  have hrecovers : Recovers s job outcome ↔ Passes s job outcome item :=
    ⟨fun h => h item hitem, fun h other hother => Option.some.inj (hitem.symm.trans hother) ▸ h⟩
  rw [hrecovers]
  obtain ⟨id, topic⟩ := job
  obtain ⟨-, ⟨rfl, hkind⟩ | ⟨rfl, hkind⟩ | ⟨rfl, hkind, -⟩⟩ := of_processingRetryOutbox hstage
  · have hparse := explained_processParse hpending rfl hkind hafter
    exact hparse
  · have hnames : (∃ row ∈ (runJobs s' before).exceptions, row.Names id item) ↔
        ∃ row ∈ s.exceptions, ¬ clears s.retried row ∧ row.Names id item := by
      refine (hbefore.names_iff hkind).trans ?_
      simp only [hexceptions, and_assoc]
    have hextract := explained_processPstExtract hpending rfl hkind hafter
    rw [hbefore.status, hstatus, hbefore.ledger, hledger] at hextract
    refine hextract.trans (and_congr_right fun _ => and_congr_right fun _ => ?_)
    exact and_congr_right fun _ => imp_congr_right fun _ => or_congr_right hnames
  · have hextract := explained_processExtract hpending rfl hkind hafter
    exact hextract

/-- **A retry erases nothing that is outstanding** if and only if every job that it enqueues is
let through by its stage, and what becomes of it is recorded. -/
theorem retried_iff {runs : List (Job Id × Outcome)} (hretry : retry s = some s')
    (hnamed : ∀ id item, s.evidence.get? id = some item → item.processingStatus = .exception →
      ∃ row ∈ s.exceptions, row.Names id item)
    (hruns : (runs.map Prod.fst).Perm s.processingJobs) :
    (∀ id item, s.evidence.get? id = some item → item.processingStatus = .exception →
      Explained (runJobs s' runs) id) ↔ ∀ run ∈ runs, Recovers s run.1 run.2 := by
  refine ⟨?_, ?_⟩
  · intro h run hrun
    have hjob : run.1 ∈ s.processingJobs := hruns.mem_iff.mp (List.mem_map_of_mem hrun)
    obtain ⟨item, hitem, hexception, -⟩ := of_mem_processingJobs hjob
    exact (explained_of_run hretry hruns hrun).mp (h _ item hitem hexception)
  · intro h id item hitem hexception
    by_cases hretried : id ∈ s.retried
    · obtain ⟨job, hjob, rfl⟩ := List.mem_map.mp hretried
      obtain ⟨run, hrun, rfl⟩ := List.mem_map.mp (hruns.mem_iff.mpr hjob)
      exact (explained_of_run hretry hruns hrun).mpr (h run hrun)
    · -- an item that is not retried keeps its row
      obtain ⟨hstatus, hevidence, hledger, hexceptions⟩ := retry_cases hretry
      obtain ⟨row, hrow, hnames⟩ := hnamed id item hitem hexception
      have hkept : ¬ clears s.retried row := by
        intro hclears
        rw [clears.eq_def] at hclears
        split at hclears
        · rename_i other hsubject
          obtain ⟨-, hmem⟩ := of_decide_eq_true hclears
          rcases hnames with h | ⟨-, h⟩ | ⟨-, h⟩ <;> rw [hsubject] at h <;> cases h
          exact hretried hmem
        · cases hclears
      have hbefore : Explained s' id := by
        refine ⟨item, ?_, .inr ⟨hexception, row, (hexceptions row).mpr ⟨hrow, hkept⟩, hnames⟩⟩
        rw [hevidence, hitem, Option.map_some, if_neg hretried]
      refine Frame.explained (frame_of_runs fun run hrun heq => hretried ?_) hbefore
      rw [heq]
      exact List.mem_map_of_mem (hruns.mem_iff.mp (List.mem_map_of_mem hrun))

end Retrying

/-! ## An email and a container -/

/-- An item in status `exception`. -/
def stuckItem (kind : EvidenceKind) : Evidence ℕ where
  kind
  processingStatus := .exception
  objectMissing := false
  malwareObjectMissing := false
  custodianId := some 1
  providerItemId := 30
  hasBlob := true
  hasFileText := false
  members := 0

/-- A completed collection with an email and a file that could not be read. -/
def unreadable : State ℕ where
  status := .completed
  evidence := [(10, stuckItem .email), (11, stuckItem .file)]
  ledger := [⟨.failed, some 10⟩, ⟨.indexed, some 11⟩]
  exceptions := [⟨.corruptItem, .message 30⟩, ⟨.unsupportedItem, .evidence 11⟩]
  nodup := by decide

/-- The file can be read now, and the email is still corrupt. -/
def outcomes : List (Job ℕ × Outcome) :=
  [(⟨11, .extract⟩, .done), (⟨10, .parse⟩, .refused .corruptItem)]

theorem retried_iff_example :
    ∃ s', retry unreadable = some s' ∧ Explained (runJobs s' outcomes) 10 ∧
      Explained (runJobs s' outcomes) 11 := by
  have hperm : (outcomes.map Prod.fst).Perm unreadable.processingJobs := by decide
  have hretried := (retried_iff rfl ?_ hperm).mpr ?_
  · exact ⟨_, rfl, hretried 10 _ rfl rfl, hretried 11 _ rfl rfl⟩
  · intro id item hitem _
    have hmem : (id, item) ∈ unreadable.evidence :=
      (JsMap.mem_iff_get? unreadable.nodup).mpr hitem
    rcases List.mem_cons.mp hmem with heq | hmem
    · cases heq
      exact ⟨_, List.mem_cons_self .., .inr (.inl ⟨rfl, rfl⟩)⟩
    · cases List.mem_singleton.mp hmem
      exact ⟨_, List.mem_cons_of_mem _ (List.mem_singleton_self _), .inl rfl⟩
  · rintro run hrun
    rcases List.mem_cons.mp hrun with rfl | hrun
    · rintro item ⟨⟩
      exact ⟨rfl, nofun, nofun⟩
    · obtain rfl := List.mem_singleton.mp hrun
      rintro item ⟨⟩
      exact ⟨rfl, nofun⟩

/-- A failed collection with a corrupt container, and nothing that failed to be fetched. -/
def corruptUpload : State ℕ where
  status := .failed
  evidence := [(10, stuckItem .container)]
  ledger := [⟨.failed, some 10⟩]
  exceptions := [⟨.corruptItem, .container 10⟩]
  nodup := by decide

/-- The collection stays `failed`, and the job is dropped. -/
theorem corruptUpload_not_retried :
    ∃ s', retry corruptUpload = some s' ∧ corruptUpload.processingJobs = [⟨10, .pstExtract⟩] ∧
      ∀ outcome, ¬ Explained (runJobs s' [(⟨10, .pstExtract⟩, outcome)]) 10 := by
  refine ⟨_, rfl, rfl, fun outcome => ?_⟩
  rintro ⟨item, hitem, hexplained⟩
  obtain rfl := Option.some.inj hitem
  rcases hexplained with h | ⟨h, -⟩ <;> cases h

end Retry

end AegCloudDfir.Processing
