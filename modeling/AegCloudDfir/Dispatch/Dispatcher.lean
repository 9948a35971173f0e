import AegCloudDfir.Js.Collections
import AegCloudDfir.Js.Value
import AegCloudDfir.Lib.RowLocks
import AegCloudDfir.Lib.Transition

/-!
# The outbox dispatcher

`OutboxDispatcher` of `apps/worker/src/outbox/dispatcher.ts` and the enqueuer it uses
(`BullMqEnqueuer` of `apps/worker/src/bullmq-enqueuer.ts`), for any number of replicas.

Producers insert rows. A replica claims a batch of pending rows that no other replica has
locked, enqueues a job for one row after the other, and writes in the end, in the transaction
that claimed them, how that went. What it writes is seen only after the commit; the jobs are
there at once. Between any two of these steps the replica can crash, and the database can give
up the transaction, which the replica learns only when it writes next.

The queue is outside of the program. It stores a job or refuses it, or it stores the job and
the answer is lost.

Kept for the statements only: every job that was sent, and the failed attempts that were
committed.
-/

namespace AegCloudDfir.Dispatch

open Transition RowLocks

variable {ρ N : Type}

/-! ## The enqueuer -/

/-- `ALL_QUEUE_NAMES` -/
def allQueueNames : List JsString :=
  [js "collection.discover", js "collection.fetch-page", js "collection.fetch-item",
    js "collection.finalize", js "pst.extract", js "import.analyze", js "process.parse",
    js "process.extract", js "process.ocr", js "process.ocr.image", js "process.preview",
    js "process.scan", js "search.index", js "search.case-collection", js "search.case-import",
    js "export.run", js "production.run", js "deletion.run", js "dead-letter"]

/-- `sanitizeJobId` -/
def sanitizeJobId (dedupKey : JsString) : Except JsString JsString :=
  if dedupKey = [] ∨ dedupKey.length > 512 then .error (js "dedup key must be 1..512 chars")
  else .ok (dedupKey.flatMap fun c => if c = 0x3A then js "__" else [c])

/-- A job: its queue, the `jobId` and the data. -/
structure Job (N : Type) where
  queue : JsString
  jobId : JsString
  data : JsMap JsString (JsVal N)

/-- The job that `BullMqEnqueuer.enqueue` adds, unless it throws before. -/
def jobOf (topic dedupKey : JsString) (payload : JsMap JsString (JsVal N)) :
    Except JsString (Job N) :=
  if topic ∉ allQueueNames then .error (js "unknown queue topic '" ++ topic ++ js "'")
  else
    match sanitizeJobId dedupKey with
    | .error message => .error message
    | .ok jobId => .ok ⟨topic, jobId, payload⟩

/-- What comes of `queue.add`. -/
inductive AddResult : Type where
  | added
  | rejected (message : JsString)
  /-- the job is stored, but the answer is lost -/
  | unanswered (message : JsString)

/-! ## The outbox -/

/-- `OutboxStatus` -/
inductive OutboxStatus : Type where
  | pending
  | dispatched
  | failed
  deriving DecidableEq

/-- A row of `outbox_events`. -/
structure OutboxEvent (N : Type) where
  id : JsString
  tenantId : JsString
  topic : JsString
  dedupKey : JsString
  payload : JsVal N
  status : OutboxStatus
  attempts : ℕ
  lastError : JsString
  createdAt : ℕ

/-- `DispatcherOptions` -/
structure DispatcherOptions where
  batchSize : ℕ := 50
  maxAttempts : ℕ := 10

/-- What `...value` adds to an object. -/
def spread : JsVal N → List (JsString × JsVal N)
  | .obj entries => entries
  | .arr elements => elements.zipIdx.map fun e => (decimal e.2, e.1)
  | _ => []

/-- The payload of the job of a row. -/
def OutboxEvent.data (row : OutboxEvent N) : JsMap JsString (JsVal N) :=
  JsMap.ofEntries ([(js "tenantId", .str row.tenantId), (js "outboxEventId", .str row.id)] ++
    spread row.payload)

/-- The job of a row. -/
def OutboxEvent.job (row : OutboxEvent N) : Except JsString (Job N) :=
  jobOf row.topic row.dedupKey row.data

/-- The update of a row whose job could not be enqueued. -/
structure FailedAttempt where
  id : JsString
  attempts : ℕ
  lastError : JsString
  status : OutboxStatus

/-- The `catch` of the loop. -/
def failedAttempt (options : DispatcherOptions) (row : OutboxEvent N) (message : JsString) :
    FailedAttempt where
  id := row.id
  attempts := row.attempts + 1
  lastError := message
  status := if row.attempts + 1 ≥ options.maxAttempts then .failed else .pending

/-- A running `dispatchOnce`. -/
structure Claim (N : Type) where
  /-- the database has not given up the transaction -/
  live : Bool
  rows : List (OutboxEvent N)
  /-- the rows the loop has not come to yet -/
  todo : List (OutboxEvent N)
  /-- `dispatched` -/
  dispatched : List JsString
  /-- the updates of the rows that failed -/
  failed : List FailedAttempt

/-- A job that was sent to the queue for a row. -/
structure Sent (N : Type) where
  eventId : JsString
  job : Job N
  /-- the queue has stored it -/
  stored : Bool

/-- The outbox and the replicas that work on it. -/
structure State (ρ N : Type) where
  rows : List (OutboxEvent N)
  running : ρ → Option (Claim N)
  sent : List (Sent N)
  /-- the rows of the failed attempts that were committed -/
  failures : List JsString

/-- An empty outbox, and idle replicas. -/
def State.empty : State ρ N where
  rows := []
  running _ := none
  sent := []
  failures := []

/-- What the updates of failed attempts make of a row. -/
def Claim.writeFailed (claim : Claim N) (row : OutboxEvent N) : OutboxEvent N :=
  match claim.failed.find? fun update => update.id = row.id with
  | some update =>
    { row with
      attempts := update.attempts
      lastError := update.lastError
      status := update.status }
  | none => row

/-- What a claim makes of a row when it is committed. -/
def Claim.write (claim : Claim N) (row : OutboxEvent N) : OutboxEvent N :=
  if row.id ∈ claim.dispatched then { claim.writeFailed row with status := .dispatched }
  else claim.writeFailed row

/-- The rows a claim has locked. -/
def Claim.held (claim : Claim N) : List (OutboxEvent N) := if claim.live then claim.rows else []

namespace State

variable (s : State ρ N)

/-- The rows a replica has locked. -/
def held (replica : ρ) : List (OutboxEvent N) := ((s.running replica).map Claim.held).getD []

/-- The rows and who has locked them. -/
def table : Table ρ (OutboxEvent N) := ⟨s.rows, s.held⟩

/-- `createMany` with `skipDuplicates`, and `create`. -/
def insert (id tenantId topic dedupKey : JsString) (payload : JsVal N) (createdAt : ℕ) :
    State ρ N :=
  if s.rows.any fun row => row.id = id ∨ row.topic = topic ∧ row.dedupKey = dedupKey then s
  else
    { s with
      rows := s.rows ++ [{
        id, tenantId, topic, dedupKey, payload, createdAt
        status := .pending
        attempts := 0
        lastError := [] }] }

variable [DecidableEq ρ]

/-- A replica goes on, or ends. -/
def goesOn (replica : ρ) (claim : Option (Claim N)) : State ρ N :=
  { s with running := Function.update s.running replica claim }

/-- A job is sent to the queue. -/
def send (row : OutboxEvent N) (job : Job N) (stored : Bool) : State ρ N :=
  { s with sent := s.sent ++ [⟨row.id, job, stored⟩] }

/-- The `catch` of the loop. Without its transaction it ends the claim. -/
def fail (options : DispatcherOptions) (replica : ρ) (claim : Claim N) (row : OutboxEvent N)
    (message : JsString) : State ρ N :=
  if claim.live then
    s.goesOn replica (some
      { claim with failed := claim.failed ++ [failedAttempt options row message] })
  else s.goesOn replica none

/-- One round of the loop. The row is no longer among those the claim has to do. -/
def enqueue (options : DispatcherOptions) (replica : ρ) (claim : Claim N) (row : OutboxEvent N)
    (result : AddResult) : State ρ N :=
  match row.job with
  | .error message => s.fail options replica claim row message
  | .ok job =>
    match result with
    | .added =>
      (s.send row job true).goesOn replica (some
        { claim with dispatched := claim.dispatched ++ [row.id] })
    | .rejected message => (s.send row job false).fail options replica claim row message
    | .unanswered message => (s.send row job true).fail options replica claim row message

/-- The end of `dispatchOnce`. -/
def commit (replica : ρ) (claim : Claim N) : State ρ N :=
  if claim.live then
    { s.goesOn replica none with
      rows := s.rows.map claim.write
      failures := s.failures ++ claim.failed.map FailedAttempt.id }
  else s.goesOn replica none

variable [Fintype ρ]

/-- Some replica has locked the row. -/
def isLocked (id : JsString) : Bool :=
  decide (∃ replica, id ∈ (s.held replica).map OutboxEvent.id)

/-- The rows that `dispatchOnce` claims. -/
def claimable (options : DispatcherOptions) : List (OutboxEvent N) :=
  (sortedBy (fun a b => compare a.createdAt b.createdAt)
    (s.rows.filter fun row => row.status = .pending ∧ !s.isLocked row.id)).take options.batchSize

end State

/-! ## The system -/

/-- What can happen next. -/
inductive Event (ρ N : Type) : Type where
  | insert (id tenantId topic dedupKey : JsString) (payload : JsVal N) (createdAt : ℕ)
  /-- the replica claims a batch -/
  | claim (replica : ρ)
  /-- it enqueues the next row -/
  | enqueue (replica : ρ) (result : AddResult)
  | commit (replica : ρ)
  | crash (replica : ρ)
  /-- the database gives up the transaction of the replica -/
  | expire (replica : ρ)

variable [DecidableEq ρ] [Fintype ρ]

/-- What an event does, if it can come next. -/
def step (options : DispatcherOptions) (s : State ρ N) : Event ρ N → Option (State ρ N)
  | .insert id tenantId topic dedupKey payload createdAt =>
    some (s.insert id tenantId topic dedupKey payload createdAt)
  | .claim replica =>
    match s.running replica with
    | some _ => none
    | none =>
      let rows := s.claimable options
      if rows.length = 0 then some s
      else some (s.goesOn replica (some ⟨true, rows, rows, [], []⟩))
  | .enqueue replica result =>
    match s.running replica with
    | none => none
    | some claim =>
      match claim.todo with
      | [] => none
      | row :: todo => some (s.enqueue options replica { claim with todo } row result)
  | .commit replica =>
    match s.running replica with
    | none => none
    | some claim => if claim.todo.isEmpty then some (s.commit replica claim) else none
  | .crash replica => some (s.goesOn replica none)
  | .expire replica =>
    match s.running replica with
    | none => none
    | some claim => some (s.goesOn replica (some { claim with live := false }))

/-! ## What a step can do -/

variable {options : DispatcherOptions} {s s' : State ρ N} {replica : ρ}

theorem step_claim (h : step options s (.claim replica) = some s') :
    s' = s ∨ s.running replica = none ∧ s' = s.goesOn replica
      (some ⟨true, s.claimable options, s.claimable options, [], []⟩) := by
  rw [step] at h
  rcases hrunning : s.running replica with _ | claim
  · simp only [hrunning] at h
    split_ifs at h
    · exact .inl (Option.some.inj h).symm
    · exact .inr ⟨rfl, (Option.some.inj h).symm⟩
  · simp [hrunning] at h

theorem step_enqueue {result : AddResult} (h : step options s (.enqueue replica result) = some s') :
    ∃ claim row todo, s.running replica = some claim ∧ claim.todo = row :: todo ∧
      s' = s.enqueue options replica { claim with todo } row result := by
  rw [step] at h
  rcases hrunning : s.running replica with _ | claim
  · simp [hrunning] at h
  · rcases htodo : claim.todo with _ | ⟨row, todo⟩
    · simp [hrunning, htodo] at h
    · simp only [hrunning, htodo] at h
      exact ⟨claim, row, todo, rfl, htodo, (Option.some.inj h).symm⟩

theorem step_commit (h : step options s (.commit replica) = some s') :
    ∃ claim, s.running replica = some claim ∧ claim.todo = [] ∧ s' = s.commit replica claim := by
  rw [step] at h
  rcases hrunning : s.running replica with _ | claim
  · simp [hrunning] at h
  · simp only [hrunning, List.isEmpty_iff] at h
    split_ifs at h with htodo
    exact ⟨claim, rfl, htodo, (Option.some.inj h).symm⟩

theorem step_expire (h : step options s (.expire replica) = some s') :
    ∃ claim, s.running replica = some claim ∧
      s' = s.goesOn replica (some { claim with live := false }) := by
  rw [step] at h
  rcases hrunning : s.running replica with _ | claim
  · simp [hrunning] at h
  · simp only [hrunning] at h
    exact ⟨claim, rfl, (Option.some.inj h).symm⟩

omit [Fintype ρ] in
/-- A round of the loop: the job is stored, or it fails, and then a job may have been sent. -/
theorem enqueue_cases (s : State ρ N) (options : DispatcherOptions) (replica : ρ)
    (claim : Claim N) (row : OutboxEvent N) (result : AddResult) :
    (∃ job, row.job = .ok job ∧ s.enqueue options replica claim row result =
      (s.send row job true).goesOn replica (some
        { claim with dispatched := claim.dispatched ++ [row.id] })) ∨
    (∃ job stored message, row.job = .ok job ∧ s.enqueue options replica claim row result =
      (s.send row job stored).fail options replica claim row message) ∨
    ∃ message, s.enqueue options replica claim row result =
      s.fail options replica claim row message := by
  rw [State.enqueue]
  rcases hjob : row.job with message | job
  · exact .inr (.inr ⟨message, rfl⟩)
  · rcases result with _ | message | message
    · exact .inl ⟨job, rfl, rfl⟩
    · exact .inr (.inl ⟨job, false, message, rfl, rfl⟩)
    · exact .inr (.inl ⟨job, true, message, rfl, rfl⟩)

omit [DecidableEq ρ] [Fintype ρ] in
theorem insert_cases (s : State ρ N) (id tenantId topic dedupKey : JsString) (payload : JsVal N)
    (createdAt : ℕ) :
    s.insert id tenantId topic dedupKey payload createdAt = s ∨
    id ∉ s.rows.map OutboxEvent.id ∧
      s.insert id tenantId topic dedupKey payload createdAt = { s with
        rows := s.rows ++
          [⟨id, tenantId, topic, dedupKey, payload, .pending, 0, [], createdAt⟩] } := by
  rw [State.insert]
  split_ifs with hany
  · exact .inl rfl
  · refine .inr ⟨fun hmem => hany ?_, rfl⟩
    obtain ⟨row, hrow, hid⟩ := List.mem_map.mp hmem
    exact List.any_eq_true.mpr ⟨row, hrow, by simp [hid]⟩

omit [DecidableEq ρ] in
/-- What can be claimed is pending, and nobody holds it. -/
theorem mem_claimable {row : OutboxEvent N} (h : row ∈ s.claimable options) :
    row ∈ s.rows ∧ row.status = .pending ∧
      ∀ replica, ∀ row' ∈ s.held replica, row.id ≠ row'.id := by
  have hmem := (mem_sortedBy _).mp (List.mem_of_mem_take h)
  obtain ⟨hrow, hfree⟩ := List.mem_filter.mp hmem
  simp only [State.isLocked, Bool.not_eq_true', decide_eq_false_iff_not, decide_eq_true_eq,
    Bool.decide_and, Bool.and_eq_true, not_exists] at hfree
  obtain ⟨hpending, hunlocked⟩ := hfree
  refine ⟨hrow, hpending, fun replica row' hrow' hid => hunlocked replica ?_⟩
  exact List.mem_map.mpr ⟨row', hrow', hid.symm⟩

end AegCloudDfir.Dispatch
