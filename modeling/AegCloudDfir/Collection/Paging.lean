import Mathlib.Data.List.Infix
import AegCloudDfir.Collection.PageKey
import AegCloudDfir.Collection.System
import AegCloudDfir.Lib.Outbox

/-!
# Paging through a scope

`fetch-page` lists one page of a scope, and in the transaction that advances the checkpoint
of the scope it enqueues the job for the next page. The key of that job is a hash of the
cursor, and a key works once. So the job is there if the chain of cursors never comes back
to one it has left, and it is missing if it does: after an expired cursor the chain starts
again, and its cursors may well be the same.

This is the machine of `AegCloudDfir.Collection.System` seen from its page jobs, with
cursors, versions and the outbox, and without anything else.

* `step` — one transaction of a page job, of `discover` or of the sweeper, or something the
  queue does with a job.
* `continues_iff` — paging never loses its continuation exactly if no checkpoint moves to a
  cursor it moved to before while no other job of the scope is waiting.
* `step_ledger` — what this machine does to the checkpoints, the ledger does.
-/

namespace AegCloudDfir.Collection.Paging

open Transition

/-! ## The machine -/

/-- A row of `collection_checkpoints`. -/
structure Position where
  id : ℕ
  scope : Scope
  cursor : JsString
  cursorKind : CursorKind
  version : ℕ

/-- An execution of `processCollectionFetchPage` that has read its checkpoint. -/
structure Execution where
  dedupKey : JsString
  checkpoint : Position

/-- The page jobs of a collection. -/
structure State where
  status : Status
  checkpoints : List Position
  nextCheckpoint : ℕ
  /-- the rows of the topic `collection.fetch-page`; a row is consumed when a worker has
  taken its job -/
  outbox : List (Outbox.Row JsString Scope)
  executions : List Execution
  /-- every job the outbox was asked for -/
  asked : List (Scope × Continuation)

/-- No page job was ever enqueued. -/
def State.created : State := ⟨.created, [], 0, [], [], []⟩

/-- What comes next. -/
inductive Event : Type where
  /-- some other transaction changes the status of the collection -/
  | setStatus (status : Status)
  /-- the last transaction of `discover` -/
  | discover (scopes : List Scope)
  /-- a worker takes a job, and reads the checkpoint -/
  | take (dedupKey : JsString)
  /-- the page is stored -/
  | commit (i : ℕ) (nextCursor deltaCursor : Option JsString)
  /-- the provider calls the cursor expired -/
  | expire (i : ℕ)
  /-- Slack refuses for good -/
  | refuse (i : ℕ)
  /-- an audit scope is not available -/
  | exhaust (i : ℕ)
  /-- the execution fails, and its job is delivered again -/
  | crash (i : ℕ)
  /-- the execution fails, and there are no attempts left -/
  | abandon (i : ℕ)
  /-- the queue takes the worker for dead, and delivers the job again -/
  | redeliver (dedupKey : JsString)
  /-- the sweeper finds a stalled checkpoint -/
  | sweep (scope : Scope)

section Machine

variable (collectionId : JsString) (provider : Provider) (sha256 : JsString → JsString)

/-- `cursorHash`. -/
def cursorHash (cursor : JsString) : JsString := (sha256 cursor).take 16

/-- Where a page leaves the checkpoint. -/
def landing (checkpoint : Position) (nextCursor deltaCursor : Option JsString) :
    JsString × CursorKind :=
  let source := checkpoint.scope.source
  match nextCursor with
  | some cursor =>
    (cursor, if source = .audit then .page else nextKind provider source checkpoint.cursorKind .more)
  | none =>
    if source = .audit then ([], .none)
    else
      let hasDelta := deltaCursor.any fun cursor => ¬ cursor.isEmpty
      (deltaCursor.getD [], nextKind provider source checkpoint.cursorKind (.exhausted hasDelta))

namespace State

variable (s : State)

/-- `outboxEvent.createMany` with `skipDuplicates`. -/
def ask (page : Scope × Continuation) : State :=
  { s with
    outbox := Outbox.insert s.outbox (pageKey collectionId page) page.1
    asked := s.asked ++ [page] }

/-- `collectionCheckpoint.upsert` of a new scope. -/
def seed (scope : Scope) : State :=
  if s.checkpoints.any fun cp => cp.scope = scope then s
  else
    { s with
      checkpoints := s.checkpoints ++ [⟨s.nextCheckpoint, scope, [], .page, 0⟩]
      nextCheckpoint := s.nextCheckpoint + 1 }

/-- The scopes that `discover` found, each with its first job. -/
def discover : List Scope → State → State
  | [], s => s
  | scope :: scopes, s => discover scopes ((s.seed scope).ask collectionId (scope, .start))

/-- The version guard. -/
def holds (checkpoint : Position) : Bool :=
  s.checkpoints.any fun cp => cp.id = checkpoint.id ∧ cp.version = checkpoint.version

/-- `collectionCheckpoint.updateMany` under the guard. -/
def advance (checkpoint : Position) (cursor : JsString) (cursorKind : CursorKind) : State :=
  { s with
    checkpoints := s.checkpoints.map fun cp =>
      if cp.id = checkpoint.id ∧ cp.version = checkpoint.version then
        { cp with cursor, cursorKind, version := checkpoint.version + 1 }
      else cp }

/-- The checkpoint is advanced, and the next job is enqueued, unless the guard fails. A
version that does not fit its column fails the transaction. -/
def moveOn (checkpoint : Position) (landing : JsString × CursorKind)
    (next : Option Continuation) : Option State :=
  if ¬ s.holds checkpoint then some s
  else if checkpoint.version ≥ maxVersion then none
  else
    let s := s.advance checkpoint landing.1 landing.2
    match next with
    | some continuation => some (s.ask collectionId (checkpoint.scope, continuation))
    | none => some s

/-- A scope is given up. -/
def drop (scope : Scope) : State :=
  { s with checkpoints := s.checkpoints.filter fun cp => cp.scope ≠ scope }

/-- The first transaction of `processCollectionFetchPage`. -/
def load (dedupKey : JsString) (scope : Scope) : State :=
  if s.status ≠ .fetching then s
  else
    match s.checkpoints.find? fun cp => cp.scope = scope with
    | none => s
    | some cp => { s with executions := s.executions ++ [⟨dedupKey, cp⟩] }

/-- A job was taken, or is to be taken again. -/
def setConsumed (dedupKey : JsString) (consumed : Bool) : State :=
  { s with outbox := Outbox.setConsumed s.outbox dedupKey consumed }

/-- An execution ends. -/
def endExecution (i : ℕ) : State := { s with executions := s.executions.eraseIdx i }

/-- `priorAttempts`. -/
def priorAttempts (scope : Scope) : ℕ :=
  s.outbox.countP fun row =>
    startsWith row.key (collectionFetchPage collectionId scope []) ∧ js "recover" <:+: row.key

/-- `pageWalkPlan` for a checkpoint that has been idle. -/
def sweep (scope : Scope) : State :=
  let priorAttempts := s.priorAttempts collectionId scope
  if priorAttempts ≥ maxRecoveryAttempts then s.drop scope
  else s.ask collectionId (scope, .recover (priorAttempts + 1))

end State

/-- One transaction, if it can come next. -/
def step (s : State) : Event → Option State
  | .setStatus status => some { s with status }
  | .discover scopes => some { s.discover collectionId scopes with status := .fetching }
  | .take dedupKey =>
    match s.outbox.find? fun row => row.key = dedupKey ∧ row.consumed = false with
    | some row => some ((s.setConsumed dedupKey true).load dedupKey row.job)
    | none => none
  | .commit i nextCursor deltaCursor =>
    match s.executions[i]? with
    | some x =>
      (s.endExecution i).moveOn collectionId x.checkpoint
        (landing provider x.checkpoint nextCursor deltaCursor)
        (nextCursor.map fun cursor => .cursor (cursorHash sha256 cursor))
    | none => none
  | .expire i =>
    match s.executions[i]? with
    | some x =>
      (s.endExecution i).moveOn collectionId x.checkpoint ([], .page)
        (some (.rescan (x.checkpoint.version + 1)))
    | none => none
  | .refuse i => s.executions[i]?.map fun x => (s.endExecution i).drop x.checkpoint.scope
  | .exhaust i =>
    match s.executions[i]? with
    | some x => (s.endExecution i).moveOn collectionId x.checkpoint ([], .none) none
    | none => none
  | .crash i => s.executions[i]?.map fun x => (s.endExecution i).setConsumed x.dedupKey false
  | .abandon i => some (s.endExecution i)
  | .redeliver dedupKey => some (s.setConsumed dedupKey false)
  | .sweep scope =>
    if s.status.isSwept ∧
        (s.checkpoints.any fun cp => cp.scope = scope ∧ cp.cursorKind = .page) then
      some (s.sweep collectionId scope)
    else none

/-! ## What is claimed -/

/-- The continuation a checkpoint is moved to, if the guard lets it. -/
def State.movesTo (s : State) (checkpoint : Position) (next : Continuation) :
    Option (Scope × Continuation) :=
  if s.holds checkpoint ∧ checkpoint.version < maxVersion then some (checkpoint.scope, next)
  else none

/-- The scope whose checkpoint an event advances without exhausting it, and where to. -/
def advances (s : State) : Event → Option (Scope × Continuation)
  | .commit i (some cursor) _ =>
    s.executions[i]?.bind fun x => s.movesTo x.checkpoint (.cursor (cursorHash sha256 cursor))
  | .expire i =>
    s.executions[i]?.bind fun x => s.movesTo x.checkpoint (.rescan (x.checkpoint.version + 1))
  | _ => none

/-- After a transaction that advances a checkpoint without exhausting its scope, some job
of the scope is waiting. -/
def Continues (s : State) (e : Event) : Prop :=
  ∀ page, advances sha256 s e = some page →
    ∀ s', step collectionId provider sha256 s e = some s' → Outbox.Waiting s'.outbox page.1

/-- A checkpoint is not moved to where it was moved before (to a cursor with the same hash,
or by a rescan to the same version) while no job of its scope is waiting. -/
def Unrepeated (s : State) (e : Event) : Prop :=
  ∀ page, advances sha256 s e = some page → page ∉ s.asked ∨ Outbox.Waiting s.outbox page.1

end Machine

/-! ## The keys of the outbox -/

/-- `createHash('sha256')` ends in `digest('hex')`. -/
def HexDigest (sha256 : JsString → JsString) : Prop :=
  ∀ text, (sha256 text).length = 64 ∧ ∀ c ∈ sha256 text, IsHex c

/-- The outbox has the keys of everything it was asked for. -/
structure Keyed (collectionId : JsString) (s : State) : Prop where
  records : Outbox.Records (pageKey collectionId) s.asked s.outbox
  wellFormed : ∀ page ∈ s.asked, page.2.WellFormed

variable {collectionId : JsString} {provider : Provider} {sha256 : JsString → JsString} {s : State}

theorem wellFormed_cursorHash (hsha : HexDigest sha256) (cursor : JsString) :
    (Continuation.cursor (cursorHash sha256 cursor)).WellFormed := by
  obtain ⟨hlength, hhex⟩ := hsha cursor
  refine ⟨?_, fun c hc => hhex c (List.mem_of_mem_take hc)⟩
  rw [cursorHash, List.length_take, hlength]
  rfl

theorem keyed_created : Keyed collectionId .created where
  records k := by simp [Outbox.keys, State.created]
  wellFormed page hpage := by cases hpage

namespace Keyed

/-- Something else changes. -/
theorem of_outbox {s' : State} (h : Keyed collectionId s) (houtbox : s'.outbox = s.outbox)
    (hasked : s'.asked = s.asked) : Keyed collectionId s' where
  records := by
    rw [houtbox, hasked]
    exact h.records
  wellFormed := by
    rw [hasked]
    exact h.wellFormed

theorem ask {page : Scope × Continuation} (h : Keyed collectionId s) (hpage : page.2.WellFormed) :
    Keyed collectionId (s.ask collectionId page) where
  records := h.records.insert page
  wellFormed x hx := by
    rcases List.mem_append.mp hx with hold | hnew
    · exact h.wellFormed x hold
    · obtain rfl := List.mem_singleton.mp hnew
      exact hpage

theorem setConsumed {dedupKey : JsString} {consumed : Bool} (h : Keyed collectionId s) :
    Keyed collectionId (s.setConsumed dedupKey consumed) where
  records := h.records.setConsumed consumed
  wellFormed := h.wellFormed

theorem seed {scope : Scope} (h : Keyed collectionId s) : Keyed collectionId (s.seed scope) := by
  rw [State.seed]
  split
  · exact h
  · exact h.of_outbox rfl rfl

theorem discover {scopes : List Scope} (h : Keyed collectionId s) :
    Keyed collectionId (s.discover collectionId scopes) := by
  induction scopes generalizing s with
  | nil => exact h
  | cons scope scopes ih => exact ih (h.seed.ask trivial)

theorem load {dedupKey : JsString} {scope : Scope} (h : Keyed collectionId s) :
    Keyed collectionId (s.load dedupKey scope) := by
  rw [State.load]
  split
  · exact h
  · split
    · exact h
    · exact h.of_outbox rfl rfl

theorem moveOn {s' : State} {checkpoint : Position} {landing : JsString × CursorKind}
    {next : Option Continuation} (h : Keyed collectionId s)
    (hnext : ∀ x, next = some x → checkpoint.version < maxVersion → x.WellFormed)
    (hs : s.moveOn collectionId checkpoint landing next = some s') : Keyed collectionId s' := by
  rw [State.moveOn] at hs
  split at hs
  · cases hs
    exact h
  · split at hs
    · cases hs
    · rename_i hversion
      cases next with
      | none =>
        cases hs
        exact h.of_outbox rfl rfl
      | some x =>
        cases hs
        have hadvanced : Keyed collectionId (s.advance checkpoint landing.1 landing.2) :=
          h.of_outbox rfl rfl
        exact hadvanced.ask (hnext x rfl (Nat.not_le.mp hversion))

/-- A key is used up exactly if its continuation was asked for before. -/
theorem mem_keys_iff {page : Scope × Continuation} (h : Keyed collectionId s)
    (hpage : page.2.WellFormed) : pageKey collectionId page ∈ Outbox.keys s.outbox ↔ page ∈ s.asked :=
  h.records.mem_keys_iff fun x hx heq => pageKey_injective (h.wellFormed x hx) hpage heq

end Keyed

theorem keyed_step (hsha : HexDigest sha256) {s' : State} {e : Event} (h : Keyed collectionId s)
    (hs : step collectionId provider sha256 s e = some s') : Keyed collectionId s' := by
  have hended : ∀ i, Keyed collectionId (s.endExecution i) := fun i => h.of_outbox rfl rfl
  cases e with
  | setStatus status =>
    cases hs
    exact h.of_outbox rfl rfl
  | discover scopes =>
    cases hs
    have hdiscovered : Keyed collectionId (s.discover collectionId scopes) := h.discover
    exact hdiscovered.of_outbox rfl rfl
  | take dedupKey =>
    rw [step] at hs
    split at hs <;> cases hs
    exact h.setConsumed.load
  | commit i nextCursor deltaCursor =>
    rw [step] at hs
    split at hs
    · refine (hended i).moveOn ?_ hs
      intro x hx _
      obtain ⟨cursor, -, rfl⟩ := Option.map_eq_some_iff.mp hx
      exact wellFormed_cursorHash hsha cursor
    · cases hs
  | expire i =>
    rw [step] at hs
    split at hs
    · refine (hended i).moveOn ?_ hs
      rintro x ⟨⟩ hversion
      exact hversion
    · cases hs
  | refuse i =>
    obtain ⟨x, -, rfl⟩ := Option.map_eq_some_iff.mp hs
    exact h.of_outbox rfl rfl
  | exhaust i =>
    rw [step] at hs
    split at hs
    · refine (hended i).moveOn ?_ hs
      rintro x ⟨⟩
    · cases hs
  | crash i =>
    obtain ⟨x, -, rfl⟩ := Option.map_eq_some_iff.mp hs
    exact (hended i).setConsumed
  | abandon i =>
    cases hs
    exact hended i
  | redeliver dedupKey =>
    cases hs
    exact h.setConsumed
  | sweep scope =>
    rw [step] at hs
    split at hs
    · cases hs
      rw [State.sweep]
      split
      · exact h.of_outbox rfl rfl
      · exact h.ask trivial
    · cases hs

/-! ## Continuations -/

theorem movesTo_eq_some {checkpoint : Position} {next : Continuation} {page : Scope × Continuation}
    (h : s.movesTo checkpoint next = some page) :
    s.holds checkpoint ∧ checkpoint.version < maxVersion ∧ page = (checkpoint.scope, next) := by
  rw [State.movesTo] at h
  split at h
  · rename_i hguard
    cases h
    exact ⟨hguard.1, hguard.2, rfl⟩
  · cases h

/-- A transaction that advances a checkpoint asks the outbox for the next job. -/
theorem asks_of_movesTo {checkpoint : Position} {landing : JsString × CursorKind} {i : ℕ}
    {next : Continuation} {page : Scope × Continuation}
    (h : s.movesTo checkpoint next = some page) :
    ∃ t : State, (s.endExecution i).moveOn collectionId checkpoint landing (some next) =
      some (t.ask collectionId page) ∧ t.outbox = s.outbox := by
  obtain ⟨hholds, hversion, rfl⟩ := movesTo_eq_some h
  refine ⟨(s.endExecution i).advance checkpoint landing.1 landing.2, ?_, rfl⟩
  have hheld : (s.endExecution i).holds checkpoint := hholds
  rw [State.moveOn, if_neg (not_not.mpr hheld), if_neg (Nat.not_le.mpr hversion)]

theorem asks_of_advances {e : Event} {page : Scope × Continuation}
    (h : advances sha256 s e = some page) :
    ∃ t : State, step collectionId provider sha256 s e = some (t.ask collectionId page) ∧
      t.outbox = s.outbox := by
  cases e with
  | commit i nextCursor deltaCursor =>
    cases nextCursor with
    | none => cases h
    | some cursor =>
      obtain ⟨x, hx, hmoves⟩ := Option.bind_eq_some_iff.mp h
      simp only [step, hx, Option.map_some]
      exact asks_of_movesTo hmoves
  | expire i =>
    obtain ⟨x, hx, hmoves⟩ := Option.bind_eq_some_iff.mp h
    simp only [step, hx]
    exact asks_of_movesTo hmoves
  | _ => cases h

theorem wellFormed_of_advances (hsha : HexDigest sha256) {e : Event} {page : Scope × Continuation}
    (h : advances sha256 s e = some page) : page.2.WellFormed := by
  cases e with
  | commit i nextCursor deltaCursor =>
    cases nextCursor with
    | none => cases h
    | some cursor =>
      obtain ⟨x, -, hmoves⟩ := Option.bind_eq_some_iff.mp h
      obtain ⟨-, -, rfl⟩ := movesTo_eq_some hmoves
      exact wellFormed_cursorHash hsha cursor
  | expire i =>
    obtain ⟨x, -, hmoves⟩ := Option.bind_eq_some_iff.mp h
    obtain ⟨-, hversion, rfl⟩ := movesTo_eq_some hmoves
    exact hversion
  | _ => cases h

/-- One transaction keeps the continuation exactly if it repeats nothing. -/
theorem Keyed.continues_iff_unrepeated (hsha : HexDigest sha256) (h : Keyed collectionId s) (e : Event) :
    Continues collectionId provider sha256 s e ↔ Unrepeated sha256 s e := by
  refine forall₂_congr fun page hpage => ?_
  obtain ⟨t, hstep, houtbox⟩ : ∃ t : State, step collectionId provider sha256 s e =
      some (t.ask collectionId page) ∧ t.outbox = s.outbox := asks_of_advances hpage
  have hkey := h.mem_keys_iff (wellFormed_of_advances hsha hpage)
  have hwaiting : Outbox.Waiting (t.ask collectionId page).outbox page.1 ↔
      page ∉ s.asked ∨ Outbox.Waiting s.outbox page.1 := by
    rw [State.ask, houtbox, Outbox.waiting_insert_iff, hkey]
  rw [← hwaiting, hstep]
  refine ⟨?_, ?_⟩
  · intro hall
    apply hall _ rfl
  · rintro hwaits _ ⟨⟩
    exact hwaits

/-- **Paging never loses its continuation** exactly if no checkpoint is moved to where it
was moved before while no job of its scope is waiting: for every chain of cursors, however
the page jobs interleave, crash and are redelivered. -/
theorem continues_iff (hsha : HexDigest sha256) (events : List Event) :
    Always (step collectionId provider sha256) (Continues collectionId provider sha256)
        .created events ↔
      Always (step collectionId provider sha256) (Unrepeated sha256) .created events := by
  have hkeyed : Keyed collectionId .created := keyed_created
  refine ⟨?_, ?_⟩
  · intro h
    refine h.imp (fun s e s' hs _ => keyed_step hsha hs) (fun s e hs => ?_) hkeyed
    exact (hs.continues_iff_unrepeated hsha e).mp
  · intro h
    refine h.imp (fun s e s' hs _ => keyed_step hsha hs) (fun s e hs => ?_) hkeyed
    exact (hs.continues_iff_unrepeated hsha e).mpr

/-! ## The checkpoints of the ledger -/

/-- A checkpoint without its cursor. -/
def Position.toCheckpoint (cp : Position) : Checkpoint JsString :=
  ⟨cp.id, cp.scope.toItemKey, cp.cursorKind, cp.version⟩

/-- The ledger has the checkpoints of the machine. -/
structure Agrees (s : State) (l : Ledger JsString) : Prop where
  checkpoints : l.checkpoints = s.checkpoints.map Position.toCheckpoint
  nextCheckpoint : l.nextCheckpoint = s.nextCheckpoint

/-- What the jobs of `AegCloudDfir.Collection.System` do to the checkpoints in an event. -/
def ledgerStep (collectionId : JsString) (provider : Provider) (s : State) (l : Ledger JsString) :
    Event → Ledger JsString
  | .discover scopes => l.seedCheckpoints (scopes.map (·.toItemKey))
  | .commit i nextCursor deltaCursor =>
    match s.executions[i]? with
    | some x =>
      l.advance x.checkpoint.id x.checkpoint.version
        (landing provider x.checkpoint nextCursor deltaCursor).2
    | none => l
  | .expire i =>
    match s.executions[i]? with
    | some x => l.advance x.checkpoint.id x.checkpoint.version .page
    | none => l
  | .exhaust i =>
    match s.executions[i]? with
    | some x => l.advance x.checkpoint.id x.checkpoint.version .none
    | none => l
  | .refuse i =>
    match s.executions[i]? with
    | some x => l.dropCheckpoint x.checkpoint.scope.toItemKey
    | none => l
  | .sweep scope =>
    if s.priorAttempts collectionId scope ≥ maxRecoveryAttempts then
      l.dropCheckpoint scope.toItemKey
    else l
  | _ => l

theorem Scope.toItemKey_injective : Function.Injective Scope.toItemKey := by
  rintro ⟨key, hkey⟩ ⟨key', hkey'⟩ h
  obtain rfl : key = key' := h
  rfl

namespace Agrees

variable {l : Ledger JsString}

theorem of_checkpoints {s' : State} (h : Agrees s l) (hcheckpoints : s'.checkpoints = s.checkpoints)
    (hnext : s'.nextCheckpoint = s.nextCheckpoint) : Agrees s' l where
  checkpoints := by rw [h.checkpoints, hcheckpoints]
  nextCheckpoint := by rw [h.nextCheckpoint, hnext]

theorem any_scope (h : Agrees s l) (scope : Scope) :
    (l.checkpoints.any fun cp => cp.scope = scope.toItemKey) =
      s.checkpoints.any fun cp => cp.scope = scope := by
  rw [h.checkpoints, List.any_map]
  congr 1
  funext cp
  exact decide_eq_decide.mpr Scope.toItemKey_injective.eq_iff

theorem seed (h : Agrees s l) (scope : Scope) :
    Agrees (s.seed scope) (l.seedCheckpoint scope.toItemKey) := by
  rw [State.seed, Ledger.seedCheckpoint, h.any_scope]
  split
  · exact h
  · refine ⟨?_, congrArg (· + 1) h.nextCheckpoint⟩
    rw [List.map_append, h.checkpoints, h.nextCheckpoint]
    rfl

theorem discover (scopes : List Scope) {s : State} {l : Ledger JsString} (h : Agrees s l) :
    Agrees (s.discover collectionId scopes) (l.seedCheckpoints (scopes.map (·.toItemKey))) := by
  induction scopes generalizing s l with
  | nil => exact h
  | cons scope scopes ih =>
    apply ih
    exact (h.seed scope).of_checkpoints rfl rfl

theorem drop (h : Agrees s l) (scope : Scope) :
    Agrees (s.drop scope) (l.dropCheckpoint scope.toItemKey) where
  checkpoints := by
    have hscope : ((fun cp : Checkpoint JsString => decide (cp.scope ≠ scope.toItemKey)) ∘
        Position.toCheckpoint) = fun cp => decide (cp.scope ≠ scope) :=
      funext fun cp => decide_eq_decide.mpr (not_congr Scope.toItemKey_injective.eq_iff)
    rw [Ledger.dropCheckpoint, State.drop, h.checkpoints, List.filter_map, hscope]
  nextCheckpoint := h.nextCheckpoint

theorem advance (h : Agrees s l) (checkpoint : Position) (cursor : JsString) (kind : CursorKind) :
    Agrees (s.advance checkpoint cursor kind)
      (l.advance checkpoint.id checkpoint.version kind) where
  checkpoints := by
    rw [Ledger.advance, State.advance, h.checkpoints, List.map_map, List.map_map]
    apply List.map_congr_left
    intro cp _
    by_cases hcp : cp.id = checkpoint.id ∧ cp.version = checkpoint.version <;>
      simp only [Function.comp_apply, Position.toCheckpoint, hcp, if_true, if_false, and_self]
  nextCheckpoint := h.nextCheckpoint

/-- Where the guard fails, there is nothing to advance. -/
theorem stale {checkpoint : Position} (h : Agrees s l) (hstale : ¬ s.holds checkpoint)
    (kind : CursorKind) : Agrees s (l.advance checkpoint.id checkpoint.version kind) := by
  have hsame : (s.advance checkpoint [] kind).checkpoints = s.checkpoints := by
    refine (List.map_congr_left fun cp hcp => ?_).trans (List.map_id s.checkpoints)
    apply if_neg
    exact fun hheld => hstale (List.any_eq_true.mpr ⟨cp, hcp, decide_eq_true hheld⟩)
  exact (h.advance checkpoint [] kind).of_checkpoints hsame.symm rfl

theorem moveOn {s' : State} {checkpoint : Position} {landing : JsString × CursorKind}
    {next : Option Continuation} (h : Agrees s l)
    (hs : s.moveOn collectionId checkpoint landing next = some s') :
    Agrees s' (l.advance checkpoint.id checkpoint.version landing.2) := by
  rw [State.moveOn] at hs
  split at hs
  · rename_i hstale
    cases hs
    exact h.stale hstale landing.2
  · split at hs
    · cases hs
    · have hadvanced := h.advance checkpoint landing.1 landing.2
      cases next with
      | none =>
        cases hs
        exact hadvanced
      | some continuation =>
        cases hs
        exact hadvanced.of_checkpoints rfl rfl

theorem load {dedupKey : JsString} {scope : Scope} (h : Agrees s l) :
    Agrees (s.load dedupKey scope) l := by
  rw [State.load]
  split
  · exact h
  · split
    · exact h
    · exact h.of_checkpoints rfl rfl

end Agrees

/-- **What this machine does to the checkpoints, the ledger does.** -/
theorem step_ledger {s' : State} {e : Event} {l : Ledger JsString} (h : Agrees s l)
    (hs : step collectionId provider sha256 s e = some s') :
    Agrees s' (ledgerStep collectionId provider s l e) := by
  have hended : ∀ i, Agrees (s.endExecution i) l := fun i => h.of_checkpoints rfl rfl
  cases e with
  | setStatus status | redeliver dedupKey =>
    cases hs
    exact h.of_checkpoints rfl rfl
  | discover scopes =>
    cases hs
    exact (h.discover scopes).of_checkpoints rfl rfl
  | take dedupKey =>
    rw [step] at hs
    split at hs <;> cases hs
    have htaken : Agrees (s.setConsumed dedupKey true) l := h.of_checkpoints rfl rfl
    exact htaken.load
  | commit i nextCursor deltaCursor | expire i | exhaust i =>
    rcases hi : s.executions[i]? with _ | x <;> simp only [step, ledgerStep, hi] at hs ⊢
    · cases hs
    · exact (hended i).moveOn hs
  | refuse i =>
    rcases hi : s.executions[i]? with _ | x <;> simp only [step, ledgerStep, hi] at hs ⊢
    · cases hs
    · cases hs
      exact (hended i).drop x.checkpoint.scope
  | crash i =>
    obtain ⟨x, -, rfl⟩ := Option.map_eq_some_iff.mp hs
    exact (hended i).of_checkpoints rfl rfl
  | abandon i =>
    cases hs
    exact hended i
  | sweep scope =>
    rw [step] at hs
    split at hs
    · cases hs
      rw [State.sweep, ledgerStep]
      split
      · exact h.drop scope
      · exact h.of_checkpoints rfl rfl
    · cases hs

/-- The machine with the ledger beside it. -/
def beside (collectionId : JsString) (provider : Provider) (sha256 : JsString → JsString)
    (both : State × Ledger JsString) (e : Event) : Option (State × Ledger JsString) :=
  (step collectionId provider sha256 both.1 e).map
    (·, ledgerStep collectionId provider both.1 both.2 e)

/-- The inbox of a mailbox. -/
def inbox : Scope where
  custodianId := js "5b1f7c1e-6a0e-4d0a-9f0e-2d3c4b5a6978"
  source := .email
  providerItemId := js "INBOX"
  length_custodianId := rfl

/-- SHA-256 of the cursor `a`, and of the empty text. -/
def digestOfA : JsString := js "ca978112ca1bbdcafac231b39a23dc4da786eff8147c4f72b9807785afee48bb"

@[inherit_doc digestOfA]
def digestOfNothing : JsString :=
  js "e3b0c44298fc1c149afbf4c8996fb92427ae41e4649b934ca495991b7852b855"

/-- A function that hashes the cursor `a` as SHA-256 does. -/
def digest (text : JsString) : JsString := if text = js "a" then digestOfA else digestOfNothing

theorem hexDigest_digest : HexDigest digest := by
  have hex : ∀ t : JsString, t = digestOfA ∨ t = digestOfNothing →
      t.length = 64 ∧ (t.all fun c => decide (IsHex c)) = true := by
    rintro t (rfl | rfl) <;> decide
  intro text
  have hvalue : digest text = digestOfA ∨ digest text = digestOfNothing := by
    rw [digest]
    split
    · exact .inl rfl
    · exact .inr rfl
  obtain ⟨hlength, hall⟩ := hex (digest text) hvalue
  exact ⟨hlength, fun c hc => of_decide_eq_true (List.all_eq_true.mp hall c hc)⟩

/-- The key of a page job of the inbox. -/
def inboxKey (continuation : Continuation) : JsString := pageKey (js "c1") (inbox, continuation)

/-- What the page at the cursor `a` is enqueued for. -/
def pageA : Continuation := .cursor (cursorHash digest (js "a"))

/-- The inbox has two pages. -/
def twoPages : List Event :=
  [.discover [inbox], .take (inboxKey .start), .commit 0 (some (js "a")) none,
    .take (inboxKey pageA), .commit 0 none (some (js "d"))]

theorem continues_iff_example :
    (run (step (js "c1") .google digest) .created twoPages).isSome ∧
      Always (step (js "c1") .google digest) (Continues (js "c1") .google digest) .created
        twoPages := by
  refine ⟨by decide +kernel, (continues_iff hexDigest_digest twoPages).mpr ?_⟩
  refine ⟨(by rintro _ ⟨⟩), ?_⟩
  rintro _ ⟨⟩
  refine ⟨(by rintro _ ⟨⟩), ?_⟩
  rintro _ ⟨⟩
  refine ⟨?_, ?_⟩
  · rintro _ ⟨⟩
    left
    decide
  rintro _ ⟨⟩
  refine ⟨(by rintro _ ⟨⟩), ?_⟩
  rintro _ ⟨⟩
  exact ⟨(by rintro _ ⟨⟩), fun _ _ => trivial⟩

/-- The last job is delivered again. Its history has expired, so the scope is listed from
the start, and the first page comes with the same cursor as before. -/
def rescanned : List Event :=
  twoPages ++ ([.redeliver (inboxKey pageA), .take (inboxKey pageA), .expire 0,
    .take (inboxKey (.rescan 3))] : List Event)

/-- The first page is stored once more, and the checkpoint waits at `a`. No job does. -/
theorem rescanned_loses :
    ∃ s s', run (step (js "c1") .google digest) .created rescanned = some s ∧
      advances digest s (.commit 0 (some (js "a")) none) = some (inbox, pageA) ∧
        step (js "c1") .google digest s (.commit 0 (some (js "a")) none) = some s' ∧
          ¬ Outbox.Waiting s'.outbox inbox := by
  have hvalue : ((run (step (js "c1") .google digest) .created rescanned).bind fun s =>
      if advances digest s (.commit 0 (some (js "a")) none) = some (inbox, pageA) then
        (step (js "c1") .google digest s (.commit 0 (some (js "a")) none)).map fun s' =>
          s'.outbox.all (·.consumed)
      else none) = some true := by
    decide +kernel
  obtain ⟨s, hrun, hlast⟩ := Option.bind_eq_some_iff.mp hvalue
  split at hlast
  · rename_i hadvances
    obtain ⟨s', hstep, hconsumed⟩ := Option.map_eq_some_iff.mp hlast
    refine ⟨s, s', hrun, hadvances, hstep, ?_⟩
    rintro ⟨row, hrow, -, hwaits⟩
    rw [List.all_eq_true.mp hconsumed row hrow] at hwaits
    cases hwaits
  · cases hlast

/-- Not every run of the page jobs keeps its continuation. -/
theorem rescanned_not_continues :
    ¬ ∀ events : List Event,
      Always (step (js "c1") .google digest) (Continues (js "c1") .google digest) .created
        events := by
  intro h
  obtain ⟨s, s', hrun, hadvances, hstep, hlost⟩ := rescanned_loses
  have hlast := h (rescanned ++ [.commit 0 (some (js "a")) none])
  obtain ⟨hcontinues, -⟩ := (Always.append.mp hlast).2 s hrun
  exact hlost (hcontinues _ hadvances s' hstep)

end AegCloudDfir.Collection.Paging
