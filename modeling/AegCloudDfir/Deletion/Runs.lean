import Mathlib
import AegCloudDfir.Lib.Transition

/-!
# Deletion runs

`deletionRun` of `apps/worker/src/processors/deletion-run.ts` reads the items of an approved request
together with the legal holds of their cases. Then it treats one item after another: it counts the
other items with the same blob, reads the blob, deletes its object in the store, and deletes the
rows. Each of these is a transaction or a call of its own, and nothing of what was read before is
looked at again. Items are put into cases, cases are put on hold, and items are acquired on blobs
that exist, all at the same time.

A row of `case_items`, `export_items`, `production_items` or `forensic_imports` keeps the row of
its item from being deleted (`ON DELETE RESTRICT`), so a held item never loses its row. Its object
has no such protection.

* `step` — the tables, the store and the executions of the job.
* `Protects` — what one event may do to evidence that is protected.
* `protected_of_quiet` — what keeps all evidence protected, and leaves no item without its object.
-/

namespace AegCloudDfir.Deletion

open Transition

variable {Id S : Type}

/-! ## Tables -/

/-- A row of `evidence_items` -/
structure Item (Id : Type) where
  id : Id
  collectionId : Option Id
  blobId : Option Id
  deriving DecidableEq

/-- A row of `evidence_blobs`. The key of its object is made of the hash. -/
structure Blob (Id S : Type) where
  id : Id
  sha256 : S
  deriving DecidableEq

/-- `deletionScope` -/
inductive Scope (Id : Type) : Type where
  | evidenceItems (ids : List Id)
  | collection (collectionId : Option Id)
  deriving DecidableEq

/-- The items of a scope. Without its id, a collection is all items of the tenant. -/
def Scope.covers [DecidableEq Id] : Scope Id → Item Id → Bool
  | .evidenceItems ids, item => item.id ∈ ids
  | .collection none, _ => true
  | .collection (some collectionId), item => item.collectionId = some collectionId

/-- `DeletionStatus` -/
inductive DeletionStatus : Type where
  | requested
  | approved
  | blocked
  | executed
  | rejected
  | cancelled
  deriving DecidableEq

/-- A row of `deletion_requests` -/
structure DeletionRequest (Id : Type) where
  id : Id
  scope : Scope Id
  status : DeletionStatus
  requestedById : Option Id
  approvedById : Option Id
  deriving DecidableEq

/-- What a run keeps of an item. -/
structure Target (Id : Type) where
  id : Id
  blobId : Option Id
  deriving DecidableEq

/-- How far a run is with the first of its items. -/
inductive Phase (Id S : Type) : Type where
  | idle
  /-- no other item has the blob -/
  | counted (blobId : Id)
  /-- the blob was read -/
  | found (blobId : Id) (sha256 : S)
  /-- the rows are to be deleted; whether the object was -/
  | removing (objectDeleted : Bool)
  deriving DecidableEq

/-- An execution of the job. -/
inductive Execution (Id S : Type) : Type where
  /-- the request is approved -/
  | approved (request : Id) (scope : Scope Id)
  /-- with the items that are still to be deleted -/
  | working (request : Id) (scope : Scope Id) (rest : List (Target Id)) (phase : Phase Id S)
  /-- it came to its end, or threw -/
  | ended (request : Id)
  | killed (request : Id)
  deriving DecidableEq

/-- The database, the object store, and what is under way. -/
structure State (Id S : Type) where
  items : List (Item Id)
  blobs : List (Blob Id S)
  objects : List S
  /-- the cases under legal hold -/
  held : List Id
  /-- rows of `case_items`: a case and an item -/
  caseItems : List (Id × Id)
  /-- the items with a row in `export_items`, `production_items` or `forensic_imports` -/
  references : List Id
  requests : List (DeletionRequest Id)
  executions : List (Execution Id S)
  /-- what was promoted, but not yet recorded -/
  acquisitions : List S

namespace Execution

/-- The request of an execution. -/
def request : Execution Id S → Id
  | approved request _ | working request _ _ _ | ended request | killed request => request

/-- It is under way. -/
def Live : Execution Id S → Prop
  | approved _ _ | working _ _ _ _ => True
  | ended _ | killed _ => False

/-- The items it is still to delete. -/
def rest : Execution Id S → List (Target Id)
  | working _ _ rest _ => rest
  | _ => []

end Execution

namespace State

variable (s : State Id S)

/-- The item is in a case under legal hold. -/
def Held (item : Id) : Prop := ∃ c ∈ s.held, (c, item) ∈ s.caseItems

/-- The row of the item can be deleted. -/
def Free (item : Id) : Prop := (∀ c ∈ s.caseItems, c.2 ≠ item) ∧ item ∉ s.references

/-- The blob of an item names an object. -/
def Names (item : Item Id) (sha256 : S) : Prop :=
  ∃ blob ∈ s.blobs, item.blobId = some blob.id ∧ blob.sha256 = sha256

/-- All objects that the blob of an item names are there. -/
def Stored (item : Item Id) : Prop := ∀ sha256, s.Names item sha256 → sha256 ∈ s.objects

/-- Every item has its object. -/
def Intact : Prop := ∀ item ∈ s.items, s.Stored item

theorem Held.not_free {s : State Id S} {item : Id} (h : s.Held item) : ¬ s.Free item := by
  obtain ⟨c, -, hmem⟩ := h
  exact fun hfree => hfree.1 _ hmem rfl

variable [DecidableEq Id]

instance (item : Id) : Decidable (s.Held item) := inferInstanceAs (Decidable (∃ c ∈ s.held, _))

instance (item : Id) : Decidable (s.Free item) := inferInstanceAs (Decidable (_ ∧ _))

/-- An execution goes on. -/
def setExecution (i : ℕ) (execution : Execution Id S) : State Id S :=
  { s with executions := s.executions.set i execution }

/-- The items of a scope that are not held. -/
def deletable (scope : Scope Id) : List (Target Id) :=
  (s.items.filter fun item => scope.covers item ∧ ¬ s.Held item.id).map fun item =>
    ⟨item.id, item.blobId⟩

/-- `sharedCount` -/
def sharedCount (blobId item : Id) : ℕ :=
  s.items.countP fun other => other.blobId = some blobId ∧ other.id ≠ item

/-- `evidenceItem.delete` -/
def deleteItem (item : Id) : State Id S :=
  { s with items := s.items.filter fun other => other.id ≠ item }

/-- `evidenceBlob.delete`, with `ON DELETE SET NULL` -/
def deleteBlob (blobId : Id) : State Id S :=
  { s with
    blobs := s.blobs.filter fun blob => blob.id ≠ blobId
    items := s.items.map fun item =>
      if item.blobId = some blobId then { item with blobId := none } else item }

/-- The transaction that deletes the rows of an item. -/
def deleteRows (target : Target Id) (objectDeleted : Bool) : State Id S :=
  let s := s.deleteItem target.id
  match target.blobId with
  | some blobId => if objectDeleted then s.deleteBlob blobId else s
  | none => s

/-- The request is executed. -/
def setStatus (request : Id) (status : DeletionStatus) : State Id S :=
  { s with
    requests := s.requests.map fun row =>
      if row.id = request then { row with status } else row }

variable [DecidableEq S]

/-- `DeleteObjectCommand` -/
def deleteObject (sha256 : S) : State Id S :=
  { s with objects := s.objects.filter fun other => other ≠ sha256 }

/-- The blob with the hash. -/
def blobOf (sha256 : S) : Option (Blob Id S) := s.blobs.find? fun blob => blob.sha256 = sha256

/-- The id that an item gets which is recorded with a hash, and perhaps a new blob. -/
def blobIdOf (sha256 : S) (new : Id) : Id := ((s.blobOf sha256).map Blob.id).getD new

/-- An acquired item is recorded. -/
def record (sha256 : S) (item blobId : Id) (collectionId : Option Id) : State Id S :=
  { s with
    blobs := if (s.blobOf sha256).isSome then s.blobs else s.blobs ++ [⟨blobId, sha256⟩]
    items := s.items ++ [⟨item, collectionId, some (s.blobIdOf sha256 blobId)⟩] }

end State

/-! ## What can happen -/

/-- What can happen next. -/
inductive Event (Id S : Type) : Type where
  /-- the job of a request is delivered -/
  | look (request : Id)
  /-- an execution reads its items -/
  | resolve (i : ℕ)
  /-- it does what comes next -/
  | next (i : ℕ)
  /-- the store refuses to delete the object -/
  | refuse (i : ℕ)
  /-- the worker is killed, or a call fails for another reason -/
  | kill (i : ℕ)
  | setHold (c : Id) (enabled : Bool)
  | addToCase (c item : Id)
  /-- an item is exported, produced, or the source of an import -/
  | refer (item : Id)
  /-- the object of an acquisition is stored, unless it is there -/
  | promote (sha256 : S)
  /-- its rows are written -/
  | record (i : ℕ) (item blobId : Id) (collectionId : Option Id)
  deriving DecidableEq

section Steps

variable [DecidableEq Id] [DecidableEq S]

/-- The four-eyes rule. -/
def DeletionRequest.fourEyes (request : DeletionRequest Id) : Bool :=
  request.approvedById.isSome ∧ request.approvedById ≠ request.requestedById

/-- The first transaction of `deletionRun`. -/
def look (s : State Id S) (request : Id) : State Id S :=
  match s.requests.find? fun row => row.id = request with
  | some row =>
    if row.status = .approved then
      if row.fourEyes then
        { s with executions := s.executions ++ [.approved request row.scope] }
      else s.setStatus request .blocked
    else s
  | none => s

/-- What an execution does with the first of its items. -/
def treat (s : State Id S) (i : ℕ) (request : Id) (scope : Scope Id) (target : Target Id)
    (rest : List (Target Id)) : Phase Id S → State Id S
  | .idle =>
    match target.blobId with
    | some blobId =>
      s.setExecution i (.working request scope (target :: rest)
        (if s.sharedCount blobId target.id = 0 then .counted blobId else .removing false))
    | none => s.setExecution i (.working request scope (target :: rest) (.removing false))
  | .counted blobId =>
    match s.blobs.find? fun blob => blob.id = blobId with
    | some blob =>
      s.setExecution i (.working request scope (target :: rest) (.found blobId blob.sha256))
    | none => s.setExecution i (.working request scope (target :: rest) (.removing false))
  | .found _ sha256 =>
    (s.deleteObject sha256).setExecution i
      (.working request scope (target :: rest) (.removing true))
  | .removing objectDeleted =>
    if (∃ item ∈ s.items, item.id = target.id) ∧ s.Free target.id then
      (s.deleteRows target objectDeleted).setExecution i (.working request scope rest .idle)
    else s.setExecution i (.ended request)

/-- An id that is new. -/
def Fresh (s : State Id S) (id : Id) : Prop :=
  (∀ item ∈ s.items, item.id ≠ id) ∧ (∀ blob ∈ s.blobs, blob.id ≠ id) ∧
    ∀ execution ∈ s.executions, ∀ target ∈ execution.rest, target.id ≠ id

instance (s : State Id S) (id : Id) : Decidable (Fresh s id) :=
  inferInstanceAs (Decidable (_ ∧ _ ∧ _))

/-- What an event does. -/
def step (s : State Id S) : Event Id S → Option (State Id S)
  | .look request => some (look s request)
  | .resolve i =>
    match s.executions[i]? with
    | some (.approved request scope) =>
      some (s.setExecution i (.working request scope (s.deletable scope) .idle))
    | _ => none
  | .next i =>
    match s.executions[i]? with
    | some (.working request scope (target :: rest) phase) =>
      some (treat s i request scope target rest phase)
    | some (.working request _ [] _) =>
      some ((s.setStatus request .executed).setExecution i (.ended request))
    | _ => none
  | .refuse i =>
    match s.executions[i]? with
    | some (.working request scope (_ :: rest) (.found _ _)) =>
      some (s.setExecution i (.working request scope rest .idle))
    | _ => none
  | .kill i =>
    match s.executions[i]? with
    | some (.approved request _) | some (.working request _ _ _) =>
      some (s.setExecution i (.killed request))
    | _ => none
  | .setHold c enabled =>
    some { s with
      held := if enabled then c :: s.held else s.held.filter fun other => other ≠ c }
  | .addToCase c item =>
    if ∃ row ∈ s.items, row.id = item then some { s with caseItems := (c, item) :: s.caseItems }
    else none
  | .refer item =>
    if ∃ row ∈ s.items, row.id = item then some { s with references := item :: s.references }
    else none
  | .promote sha256 =>
    some { s with
      objects := if sha256 ∈ s.objects then s.objects else sha256 :: s.objects
      acquisitions := s.acquisitions ++ [sha256] }
  | .record i item blobId collectionId =>
    s.acquisitions[i]?.bind fun sha256 =>
      if Fresh s item ∧ Fresh s blobId then
        some { s.record sha256 item blobId collectionId with
          acquisitions := s.acquisitions.eraseIdx i }
      else none

end Steps

/-! ## What is asked for -/

/-- **An event spares what is protected**: no held item loses its row, and no object is deleted that
belongs to a held item or to one that the run does not delete. -/
structure Protects (s : State Id S) (e : Event Id S) (s' : State Id S) : Prop where
  rows : ∀ item ∈ s.items, (∀ other ∈ s'.items, other.id ≠ item.id) → ¬ s.Held item.id
  objects : ∀ sha256 ∈ s.objects, sha256 ∉ s'.objects → ∀ item ∈ s.items, s.Names item sha256 →
    ¬ s.Held item.id ∧ ∃ i execution, e = .next i ∧ s.executions[i]? = some execution ∧
      ∃ target ∈ execution.rest, target.id = item.id

/-- No delivery is outstanding: an execution that was killed was followed by another one. -/
def Finished (s : State Id S) : Prop :=
  ∀ (i : ℕ) (execution : Execution Id S), s.executions[i]? = some execution → ¬ execution.Live ∧
    ∀ request, execution = .killed request → ∃ (j : ℕ) (later : Execution Id S),
      i < j ∧ s.executions[j]? = some later ∧ later.request = request

/-! ## What it takes -/

/-- An object is deleted when nothing keeps the row of its item, and a row that cannot be deleted is
none of a run that is still to delete an item whose object is gone. -/
def NextQuiet (s : State Id S) : Execution Id S → Prop
  | .working _ _ (target :: _) (.found _ _) => s.Free target.id
  | .working _ _ (target :: rest) (.removing _) =>
    ((∃ item ∈ s.items, item.id = target.id) ∧ s.Free target.id) ∨
      ∀ item ∈ s.items, (∃ other ∈ target :: rest, other.id = item.id) → s.Stored item
  | _ => True

/-- The execution has counted the items with the blob, or found the object, and has not deleted the
object. -/
def Execution.Relies (sha256 : S) (blobId : Id) : Execution Id S → Prop
  | .working _ _ _ (.counted counted) => counted = blobId
  | .working _ _ _ (.found _ found) => found = sha256
  | _ => False

/-- **What others have to leave alone.** A request is delivered again when no execution of it is
under way; only an object that is there is refused; nothing refers to an item whose object is gone;
and an item is recorded whose object is still there, when nobody relies on there being none. -/
def Quiet [DecidableEq Id] [DecidableEq S] (s : State Id S) : Event Id S → Prop
  | .look request => ∀ execution ∈ s.executions, execution.request = request → ¬ execution.Live
  | .next i => ∀ execution ∈ s.executions[i]?, NextQuiet s execution
  | .refuse i => ∀ execution ∈ s.executions[i]?, ∀ target ∈ execution.rest.head?,
    ∀ item ∈ s.items, item.id = target.id → s.Stored item
  | .addToCase _ item | .refer item => ∀ row ∈ s.items, row.id = item → s.Stored row
  | .record i _ blobId _ => ∀ sha256 ∈ s.acquisitions[i]?, sha256 ∈ s.objects ∧
    ∀ execution ∈ s.executions, ¬ execution.Relies sha256 (s.blobIdOf sha256 blobId)
  | _ => True

section Decide

variable [DecidableEq Id] [DecidableEq S]

instance (s : State Id S) (item : Item Id) : Decidable (s.Stored item) :=
  decidable_of_iff (∀ blob ∈ s.blobs, item.blobId = some blob.id → blob.sha256 ∈ s.objects) <| by
    refine ⟨?_, ?_⟩
    · rintro h sha256 ⟨blob, hblob, hid, rfl⟩
      exact h blob hblob hid
    · exact fun h blob hblob hid => h _ ⟨blob, hblob, hid, rfl⟩

instance : ∀ execution : Execution Id S, Decidable execution.Live
  | .approved _ _ | .working _ _ _ _ => isTrue trivial
  | .ended _ | .killed _ => isFalse id

instance (s : State Id S) : ∀ execution : Execution Id S, Decidable (NextQuiet s execution)
  | .working _ _ (target :: _) (.found _ _) => inferInstanceAs (Decidable (s.Free target.id))
  | .working _ _ (target :: rest) (.removing _) => inferInstanceAs (Decidable
      (((∃ item ∈ s.items, item.id = target.id) ∧ s.Free target.id) ∨
        ∀ item ∈ s.items, (∃ other ∈ target :: rest, other.id = item.id) → s.Stored item))
  | .working _ _ [] _ | .working _ _ (_ :: _) .idle | .working _ _ (_ :: _) (.counted _)
  | .approved _ _ | .ended _ | .killed _ => isTrue trivial

instance (sha256 : S) (blobId : Id) :
    ∀ execution : Execution Id S, Decidable (execution.Relies sha256 blobId)
  | .working _ _ _ (.counted counted) => inferInstanceAs (Decidable (counted = blobId))
  | .working _ _ _ (.found _ found) => inferInstanceAs (Decidable (found = sha256))
  | .working _ _ _ .idle | .working _ _ _ (.removing _) | .approved _ _ | .ended _
  | .killed _ => isFalse id

instance Quiet.decidable (s : State Id S) : ∀ e, Decidable (Quiet s e)
  | .look request => inferInstanceAs
      (Decidable (∀ execution ∈ s.executions, execution.request = request → ¬ execution.Live))
  | .next i => inferInstanceAs (Decidable (∀ execution ∈ s.executions[i]?, NextQuiet s execution))
  | .refuse i => inferInstanceAs
      (Decidable (∀ execution ∈ s.executions[i]?, ∀ target ∈ execution.rest.head?,
        ∀ item ∈ s.items, item.id = target.id → s.Stored item))
  | .addToCase _ item | .refer item =>
    inferInstanceAs (Decidable (∀ row ∈ s.items, row.id = item → s.Stored row))
  | .record i _ blobId _ => inferInstanceAs
      (Decidable (∀ sha256 ∈ s.acquisitions[i]?, sha256 ∈ s.objects ∧
        ∀ execution ∈ s.executions, ¬ execution.Relies sha256 (s.blobIdOf sha256 blobId)))
  | .resolve _ | .kill _ | .setHold _ _ | .promote _ => isTrue trivial

end Decide

/-! ## The invariant -/

/-- The scope of a request. -/
def State.scopeOf [DecidableEq Id] (s : State Id S) (request : Id) : Option (Scope Id) :=
  (s.requests.find? fun row => row.id = request).map DeletionRequest.scope

/-- The scope an execution has read. -/
def Execution.scope? : Execution Id S → Option (Scope Id)
  | .approved _ scope | .working _ scope _ _ => some scope
  | _ => none

/-- An execution relies on there being no other item. -/
def Execution.Alone (s : State Id S) : Execution Id S → Prop
  | .working _ _ (target :: _) (.counted blobId) =>
    ∀ item ∈ s.items, item.blobId = some blobId → item.id = target.id
  | .working _ _ (target :: _) (.found _ sha256) =>
    ∀ item ∈ s.items, s.Names item sha256 → item.id = target.id
  | _ => True

/-- An execution, or the one that will come for it, is still to delete the item. -/
def Execution.Owes (item : Id) : Execution Id S → Prop
  | .approved _ _ | .killed _ => True
  | .working _ _ rest _ => ∃ target ∈ rest, target.id = item
  | .ended _ => False

/-- It is the last execution of its request. -/
def State.Last (s : State Id S) (i : ℕ) (execution : Execution Id S) : Prop :=
  s.executions[i]? = some execution ∧ ∀ (j : ℕ) (later : Execution Id S), i < j →
    s.executions[j]? = some later → later.request ≠ execution.request

/-- The item is about to be deleted. -/
def State.Owed [DecidableEq Id] (s : State Id S) (item : Item Id) : Prop :=
  s.Free item.id ∧ ∃ i execution scope, s.Last i execution ∧ execution.Owes item.id ∧
    s.scopeOf execution.request = some scope ∧ scope.covers item = true

/-- **The invariant.** -/
structure Sound [DecidableEq Id] (s : State Id S) : Prop where
  sha256 : ∀ blob ∈ s.blobs, ∀ other ∈ s.blobs, blob.id = other.id ↔ blob.sha256 = other.sha256
  ids : (s.items.map Item.id).Nodup
  scopes : ∀ execution ∈ s.executions, ∀ scope ∈ execution.scope?,
    s.scopeOf execution.request = some scope
  covers : ∀ execution ∈ s.executions, ∀ target ∈ execution.rest, ∀ scope ∈ execution.scope?,
    ∀ item ∈ s.items, item.id = target.id → scope.covers item = true
  alone : ∀ execution ∈ s.executions, execution.Alone s
  last : ∀ (i : ℕ) (execution : Execution Id S), s.executions[i]? = some execution →
    execution.Live → s.Last i execution
  /-- whose object is gone will go, too -/
  owed : ∀ item ∈ s.items, s.Stored item ∨ s.Owed item

/-! ## Losing things -/

/-- Rows of evidence are at most lost. -/
structure Loses (s s' : State Id S) : Prop where
  blobs : ∀ blob ∈ s'.blobs, blob ∈ s.blobs
  ids : (s'.items.map Item.id).Sublist (s.items.map Item.id)
  items : ∀ item' ∈ s'.items, ∃ item ∈ s.items, item.id = item'.id ∧
    item.collectionId = item'.collectionId ∧
      ∀ blobId, item'.blobId = some blobId → item.blobId = some blobId

theorem Loses.of_eq {s s' : State Id S} (hitems : s'.items = s.items)
    (hblobs : s'.blobs = s.blobs) : Loses s s' where
  blobs _ h := hblobs ▸ h
  ids := by rw [hitems]
  items item h := ⟨item, hitems ▸ h, rfl, rfl, fun _ => id⟩

/-- The item that another one was. -/
structure Was (item item' : Item Id) : Prop where
  id : item.id = item'.id
  collectionId : item.collectionId = item'.collectionId
  blobId : ∀ blobId, item'.blobId = some blobId → item.blobId = some blobId

theorem Was.names {s s' : State Id S} (hblobs : ∀ blob ∈ s'.blobs, blob ∈ s.blobs)
    {item item' : Item Id} (hwas : Was item item') {sha256 : S} (h : s'.Names item' sha256) :
    s.Names item sha256 := by
  obtain ⟨blob, hblob, hid, hsha⟩ := h
  exact ⟨blob, hblobs blob hblob, hwas.blobId _ hid, hsha⟩

theorem Was.covers [DecidableEq Id] {item item' : Item Id} (hwas : Was item item')
    (scope : Scope Id) : scope.covers item' = scope.covers item := by
  cases scope with
  | evidenceItems ids => rw [Scope.covers, Scope.covers, hwas.id]
  | collection collectionId =>
    cases collectionId with
    | none => rfl
    | some collectionId => rw [Scope.covers, Scope.covers, hwas.collectionId]

namespace Loses

variable {s s' : State Id S} (h : Loses s s')

include h

theorem was {item' : Item Id} (hitem : item' ∈ s'.items) : ∃ item ∈ s.items, Was item item' := by
  obtain ⟨item, hmem, hid, hcollectionId, hblobId⟩ := h.items item' hitem
  exact ⟨item, hmem, hid, hcollectionId, hblobId⟩

theorem stored (hobjects : ∀ sha256 ∈ s.objects, sha256 ∈ s'.objects) {item item' : Item Id}
    (hwas : Was item item') (hstored : s.Stored item) : s'.Stored item' :=
  fun sha256 hnames => hobjects sha256 (hstored sha256 (hwas.names h.blobs hnames))

theorem alone {execution : Execution Id S} (hex : execution.Alone s) : execution.Alone s' := by
  rcases execution with _ | ⟨request, scope, _ | ⟨target, rest⟩, phase⟩ | _ | _
  · trivial
  · trivial
  · cases phase with
    | idle => trivial
    | counted blobId =>
      intro item' hitem' hblobId
      obtain ⟨item, hitem, hwas⟩ := h.was hitem'
      rw [← hwas.id]
      exact hex item hitem (hwas.blobId blobId hblobId)
    | found blobId sha256 =>
      intro item' hitem' hnames
      obtain ⟨item, hitem, hwas⟩ := h.was hitem'
      rw [← hwas.id]
      exact hex item hitem (hwas.names h.blobs hnames)
    | removing objectDeleted => trivial
  · trivial
  · trivial

end Loses

/-! ## What an event keeps -/

section Sound

variable [DecidableEq Id] {s s' : State Id S}

/-- An execution of a sound state, after something was lost. -/
structure Fits (s : State Id S) (execution : Execution Id S) : Prop where
  scope : ∀ scope ∈ execution.scope?, s.scopeOf execution.request = some scope
  covers : ∀ target ∈ execution.rest, ∀ scope ∈ execution.scope?, ∀ item ∈ s.items,
    item.id = target.id → scope.covers item = true
  alone : execution.Alone s

theorem Sound.fits (hs : Sound s) {execution : Execution Id S} (h : execution ∈ s.executions) :
    Fits s execution :=
  ⟨hs.scopes execution h, hs.covers execution h, hs.alone execution h⟩

theorem Fits.of_loses {execution : Execution Id S} (h : Loses s s')
    (hscopes : ∀ request, s'.scopeOf request = s.scopeOf request) (hfits : Fits s execution) :
    Fits s' execution where
  scope scope hscope := (hscopes _).trans (hfits.scope scope hscope)
  covers target htarget scope hscope item' hitem' hid := by
    obtain ⟨item, hitem, hwas⟩ := h.was hitem'
    rw [hwas.covers]
    exact hfits.covers target htarget scope hscope item hitem (hwas.id.trans hid)
  alone := h.alone hfits.alone

/-- **What is left is sound** if the executions are. -/
theorem Sound.of_loses (hs : Sound s) (h : Loses s s')
    (hscopes : ∀ request, s'.scopeOf request = s.scopeOf request)
    (hfits : ∀ execution ∈ s'.executions, execution ∈ s.executions ∨ Fits s' execution)
    (hlast : ∀ (i : ℕ) (execution : Execution Id S), s'.executions[i]? = some execution →
      execution.Live → s'.Last i execution)
    (howed : ∀ item ∈ s.items, ∀ item' ∈ s'.items, Was item item' → ¬ s'.Stored item' →
      (¬ s.Stored item → s.Owed item) → s'.Owed item') : Sound s' := by
  have hall : ∀ execution ∈ s'.executions, Fits s' execution := by
    intro execution hmem
    rcases hfits execution hmem with hold | hnew
    · exact (hs.fits hold).of_loses h hscopes
    · exact hnew
  exact {
    sha256 := fun blob hblob other hother =>
      hs.sha256 blob (h.blobs blob hblob) other (h.blobs other hother)
    ids := hs.ids.sublist h.ids
    scopes := fun execution hmem => (hall execution hmem).scope
    covers := fun execution hmem => (hall execution hmem).covers
    alone := fun execution hmem => (hall execution hmem).alone
    last := hlast
    owed := fun item' hitem' => by
      obtain ⟨item, hitem, hwas⟩ := h.was hitem'
      refine or_iff_not_imp_left.mpr fun hstored => ?_
      exact howed item hitem item' hitem' hwas hstored (hs.owed item hitem).resolve_left }

omit [DecidableEq Id] in
/-- The others wait for the execution that goes on. -/
theorem last_set {i : ℕ} {execution : Execution Id S} (next : Execution Id S)
    (hi : s.executions[i]? = some execution) (hrequest : next.request = execution.request)
    (hexecutions : s'.executions = s.executions.set i next) {k : ℕ} {other : Execution Id S}
    (hk : s.Last k other) (hki : k ≠ i) : s'.Last k other := by
  refine ⟨by rw [hexecutions, List.getElem?_set_ne (Ne.symm hki)]; exact hk.1, ?_⟩
  intro j later hkj hj
  rw [hexecutions] at hj
  by_cases hij : i = j
  · subst hij
    rw [List.getElem?_set_self (List.getElem?_eq_some_iff.mp hi).1] at hj
    cases hj
    rw [hrequest]
    exact hk.2 i execution hkj hi
  · rw [List.getElem?_set_ne hij] at hj
    exact hk.2 j later hkj hj

omit [DecidableEq Id] in
/-- The execution that goes on is still the last of its request. -/
theorem last_set_self {i : ℕ} {execution : Execution Id S} (next : Execution Id S)
    (hi : s.Last i execution) (hrequest : next.request = execution.request)
    (hexecutions : s'.executions = s.executions.set i next) : s'.Last i next := by
  have hlt := (List.getElem?_eq_some_iff.mp hi.1).1
  refine ⟨by rw [hexecutions, List.getElem?_set_self hlt], ?_⟩
  intro j later hij hj
  rw [hexecutions, List.getElem?_set_ne (Nat.ne_of_lt hij)] at hj
  rw [hrequest]
  exact hi.2 j later hij hj

/-- **An execution goes on**, and still owes what it owed and what is not stored. -/
theorem Sound.advance (hs : Sound s) (h : Loses s s')
    (hobjects : ∀ sha256 ∈ s.objects, sha256 ∈ s'.objects)
    (hscopes : ∀ request, s'.scopeOf request = s.scopeOf request)
    (hfree : ∀ item, s.Free item → s'.Free item) {i : ℕ} {execution : Execution Id S}
    (next : Execution Id S) (hi : s.executions[i]? = some execution) (hlive : execution.Live)
    (hrequest : next.request = execution.request)
    (hexecutions : s'.executions = s.executions.set i next) (hfits : Fits s' next)
    (howes : ∀ item ∈ s'.items, ¬ s'.Stored item → s.Free item.id →
      (∀ scope ∈ s.scopeOf execution.request, scope.covers item = true) →
        execution.Owes item.id → next.Owes item.id) : Sound s' := by
  have hlast := hs.last i execution hi hlive
  refine hs.of_loses h hscopes (fun other hother => ?_) (fun k other hk hother => ?_) ?_
  · rw [hexecutions] at hother
    refine (List.mem_or_eq_of_mem_set hother).imp_right ?_
    rintro rfl
    exact hfits
  · by_cases hki : k = i
    · subst hki
      rw [hexecutions, List.getElem?_set_self (List.getElem?_eq_some_iff.mp hi).1] at hk
      cases hk
      exact last_set_self next hlast hrequest hexecutions
    · rw [hexecutions, List.getElem?_set_ne (Ne.symm hki)] at hk
      exact last_set next hi hrequest hexecutions (hs.last k other hk hother) hki
  · intro item _ item' hitem' hwas hstored hdebt
    obtain ⟨hitemfree, k, other, scope, hk, howed, hscope, hcovers⟩ :=
      hdebt fun hold => hstored (h.stored hobjects hwas hold)
    rw [hwas.id] at hitemfree howed
    refine ⟨hfree _ hitemfree, ?_⟩
    rw [← hwas.covers] at hcovers
    by_cases hki : k = i
    · subst hki
      obtain rfl := Option.some.inj (hi.symm.trans hk.1)
      refine ⟨k, next, scope, last_set_self next hk hrequest hexecutions,
        howes item' hitem' hstored hitemfree ?_ howed, by rw [hscopes, hrequest, hscope], hcovers⟩
      rintro scope' hscope'
      obtain rfl := Option.some.inj (hscope.symm.trans hscope')
      exact hcovers
    · exact ⟨k, other, scope, last_set next hi hrequest hexecutions hk hki, howed,
        (hscopes _).trans hscope, hcovers⟩

/-- Nothing happens to an execution but that it goes on. -/
theorem scopeOf_setStatus (request : Id) (status : DeletionStatus) (other : Id) :
    (s.setStatus request status).scopeOf other = s.scopeOf other := by
  have hfind : ∀ rows : List (DeletionRequest Id),
      ((rows.map fun row => if row.id = request then { row with status } else row).find?
          fun row => row.id = other).map DeletionRequest.scope =
        (rows.find? fun row => row.id = other).map DeletionRequest.scope := by
    intro rows
    induction rows with
    | nil => rfl
    | cons row rows ih =>
      rw [List.map_cons, List.find?_cons, List.find?_cons]
      by_cases hrow : row.id = request
      · rw [if_pos hrow]
        by_cases hother : row.id = other
        · simp [hother]
        · simpa [hother] using ih
      · rw [if_neg hrow]
        by_cases hother : row.id = other
        · simp [hother]
        · simpa [hother] using ih
  exact hfind s.requests

theorem loses_deleteItem (item : Id) : Loses s (s.deleteItem item) where
  blobs _ := id
  ids := List.Sublist.map _ List.filter_sublist
  items item' h := ⟨item', (List.mem_filter.mp h).1, rfl, rfl, fun _ => id⟩

theorem loses_deleteBlob (blobId : Id) : Loses s (s.deleteBlob blobId) where
  blobs _ h := (List.mem_filter.mp h).1
  ids := by
    have hsame : (s.deleteBlob blobId).items.map Item.id = s.items.map Item.id := by
      rw [State.deleteBlob, List.map_map]
      refine List.map_congr_left fun item _ => ?_
      rw [Function.comp_apply]
      split <;> rfl
    rw [hsame]
  items item' h := by
    obtain ⟨item, hitem, rfl⟩ := List.mem_map.mp h
    refine ⟨item, hitem, ?_⟩
    split
    · exact ⟨rfl, rfl, by rintro _ ⟨⟩⟩
    · exact ⟨rfl, rfl, fun _ => id⟩

omit [DecidableEq Id] in
theorem Loses.trans {s'' : State Id S} (h : Loses s s') (h' : Loses s' s'') : Loses s s'' where
  blobs blob hblob := h.blobs blob (h'.blobs blob hblob)
  ids := h'.ids.trans h.ids
  items item'' hitem'' := by
    obtain ⟨item', hitem', hwas'⟩ := h'.was hitem''
    obtain ⟨item, hitem, hwas⟩ := h.was hitem'
    exact ⟨item, hitem, hwas.id.trans hwas'.id, hwas.collectionId.trans hwas'.collectionId,
      fun blobId hblobId => hwas.blobId _ (hwas'.blobId _ hblobId)⟩

theorem loses_deleteRows (target : Target Id) (objectDeleted : Bool) :
    Loses s (s.deleteRows target objectDeleted) := by
  rw [State.deleteRows]
  split
  · split
    · exact (loses_deleteItem _).trans (loses_deleteBlob _)
    · exact loses_deleteItem _
  · exact loses_deleteItem _

/-- The rows of the item are gone. -/
theorem notMem_deleteRows {target : Target Id} {objectDeleted : Bool} {item : Item Id}
    (h : item ∈ (s.deleteRows target objectDeleted).items) : item.id ≠ target.id := by
  have hdeleted : ∀ {item : Item Id}, item ∈ (s.deleteItem target.id).items →
      item.id ≠ target.id := fun h => of_decide_eq_true (List.mem_filter.mp h).2
  rw [State.deleteRows] at h
  split at h
  · split at h
    · obtain ⟨item', hitem', hwas⟩ := (loses_deleteBlob _).was h
      rw [← hwas.id]
      exact hdeleted hitem'
    · exact hdeleted h
  · exact hdeleted h

/-- What a working execution needs with fewer items to delete. -/
theorem Fits.working {request : Id} {scope : Scope Id} {rest rest' : List (Target Id)}
    {phase phase' : Phase Id S} (h : Fits s (.working request scope rest phase))
    (hrest : ∀ target ∈ rest', target ∈ rest)
    (halone : (Execution.working request scope rest' phase').Alone s) :
    Fits s (.working request scope rest' phase') where
  scope := h.scope
  covers target htarget := h.covers target (hrest target htarget)
  alone := halone

/-- Nothing but an execution changes. -/
theorem Sound.setExecution (hs : Sound s) {i : ℕ} {execution next : Execution Id S}
    (hi : s.executions[i]? = some execution) (hlive : execution.Live)
    (hrequest : next.request = execution.request) (hfits : Fits s next)
    (howes : ∀ item ∈ s.items, ¬ s.Stored item → s.Free item.id →
      (∀ scope ∈ s.scopeOf execution.request, scope.covers item = true) →
        execution.Owes item.id → next.Owes item.id) : Sound (s.setExecution i next) :=
  have hloses : Loses s (s.setExecution i next) := .of_eq rfl rfl
  hs.advance hloses (fun _ => id) (fun _ => rfl) (fun _ => id) next hi hlive hrequest rfl
    (hfits.of_loses hloses fun _ => rfl) howes

theorem deleteRows_others (target : Target Id) (objectDeleted : Bool) :
    (s.deleteRows target objectDeleted).caseItems = s.caseItems ∧
      (s.deleteRows target objectDeleted).references = s.references ∧
      (s.deleteRows target objectDeleted).objects = s.objects ∧
      (s.deleteRows target objectDeleted).requests = s.requests ∧
      (s.deleteRows target objectDeleted).executions = s.executions := by
  rw [State.deleteRows]
  split
  · split <;> exact ⟨rfl, rfl, rfl, rfl, rfl⟩
  · exact ⟨rfl, rfl, rfl, rfl, rfl⟩

omit [DecidableEq Id] in
theorem alone_idle {request : Id} {scope : Scope Id} {rest : List (Target Id)} :
    (Execution.working request scope rest .idle).Alone s := by
  cases rest <;> trivial

/-- A row is deleted, and the run goes on. -/
theorem sound_deleteRows (hs : Sound s) {i : ℕ} {request : Id} {scope : Scope Id}
    {target : Target Id} {rest : List (Target Id)} {objectDeleted : Bool}
    (hi : s.executions[i]? =
      some (.working request scope (target :: rest) (.removing objectDeleted))) :
    Sound ((s.deleteRows target objectDeleted).setExecution i
      (.working request scope rest .idle)) := by
  obtain ⟨hcaseItems, hreferences, hobjects, hrequests, hexecutions⟩ :=
    deleteRows_others (s := s) target objectDeleted
  have hloses : Loses s ((s.deleteRows target objectDeleted).setExecution i
      (.working request scope rest .idle)) := (loses_deleteRows target objectDeleted).trans
    (.of_eq rfl rfl)
  have hscopes : ∀ request', ((s.deleteRows target objectDeleted).setExecution i
      (.working request scope rest .idle)).scopeOf request' = s.scopeOf request' := by
    intro request'
    rw [State.scopeOf, State.setExecution, hrequests]
    rfl
  refine hs.advance hloses (fun sha256 h => ?_) hscopes (fun item h => ?_)
    (.working request scope rest .idle) hi trivial rfl ?_ ?_ ?_
  · rw [State.setExecution, hobjects]
    exact h
  · rw [State.Free, State.setExecution, hcaseItems, hreferences]
    exact h
  · rw [State.setExecution, hexecutions]
  · refine Fits.of_loses hloses hscopes ?_
    exact (hs.fits (List.mem_of_getElem? hi)).working (fun _ => List.mem_cons_of_mem _) alone_idle
  · rintro item hitem - - - ⟨other, hother, hid⟩
    rcases List.mem_cons.mp hother with rfl | hother
    · exact absurd hid.symm (notMem_deleteRows hitem)
    · exact ⟨other, hother, hid⟩

variable [DecidableEq S]

/-- **The object is deleted.** Only its item has named it, and it is the next one to go. -/
theorem sound_deleteObject (hs : Sound s) {i : ℕ} {request blobId : Id} {scope : Scope Id}
    {target : Target Id} {rest : List (Target Id)} {sha256 : S}
    (hi : s.executions[i]? =
      some (.working request scope (target :: rest) (.found blobId sha256)))
    (hquiet : s.Free target.id) :
    Sound ((s.deleteObject sha256).setExecution i
      (.working request scope (target :: rest) (.removing true))) := by
  have hloses : Loses s ((s.deleteObject sha256).setExecution i
      (.working request scope (target :: rest) (.removing true))) := .of_eq rfl rfl
  have hmem := List.mem_of_getElem? hi
  have hself : ((s.deleteObject sha256).setExecution i (.working request scope (target :: rest)
      (.removing true))).Last i (.working request scope (target :: rest) (.removing true)) :=
    last_set_self (.working request scope (target :: rest) (.removing true))
      (hs.last i _ hi trivial) rfl rfl
  have hothers : ∀ {k : ℕ} {other : Execution Id S}, s.Last k other → k ≠ i →
      ((s.deleteObject sha256).setExecution i (.working request scope (target :: rest)
        (.removing true))).Last k other := fun hk hki =>
    last_set (.working request scope (target :: rest) (.removing true)) hi rfl rfl hk hki
  refine hs.of_loses hloses (fun _ => rfl) (fun other hother => ?_) (fun k other hk hother => ?_) ?_
  · refine (List.mem_or_eq_of_mem_set hother).imp_right ?_
    rintro rfl
    exact Fits.of_loses hloses (fun _ => rfl) ((hs.fits hmem).working (fun _ => id) trivial)
  · by_cases hki : k = i
    · subst hki
      obtain rfl := Option.some.inj (hself.1.symm.trans hk)
      exact hself
    · have hold : s.executions[k]? = some other := by
        rw [← hk]
        exact (List.getElem?_set_ne (Ne.symm hki)).symm
      exact hothers (hs.last k other hold hother) hki
  · intro item hitem item' hitem' hwas hstored hdebt
    by_cases hid : item'.id = target.id
    · refine ⟨hid ▸ hquiet, i, _, scope, hself, ⟨target, List.mem_cons_self, hid.symm⟩,
        hs.scopes _ hmem scope rfl, ?_⟩
      exact hs.covers _ hmem target List.mem_cons_self scope rfl item' hitem' hid
    · -- the item has not named the object, so it had none before
      have hother : ¬ s.Stored item := by
        intro hold
        refine hstored fun sha256' hnames => ?_
        have hnames' : s.Names item sha256' := hwas.names hloses.blobs hnames
        refine List.mem_filter.mpr ⟨hold sha256' hnames', decide_eq_true ?_⟩
        rintro rfl
        exact hid (hwas.id.symm.trans (hs.alone _ hmem item hitem hnames'))
      obtain ⟨hitemfree, k, other, scope', hk, howed, hscope, hcovers⟩ := hdebt hother
      rw [hwas.id] at hitemfree howed
      rw [← hwas.covers] at hcovers
      refine ⟨hitemfree, ?_⟩
      by_cases hki : k = i
      · subst hki
        obtain rfl := Option.some.inj (hi.symm.trans hk.1)
        exact ⟨k, _, scope', hself, howed, hscope, hcovers⟩
      · exact ⟨k, other, scope', hothers hk hki, howed, hscope, hcovers⟩

/-- What an execution does with the first of its items. -/
theorem sound_treat (hs : Sound s) {i : ℕ} {request : Id} {scope : Scope Id} {target : Target Id}
    {rest : List (Target Id)} {phase : Phase Id S}
    (hi : s.executions[i]? = some (.working request scope (target :: rest) phase))
    (hquiet : NextQuiet s (.working request scope (target :: rest) phase)) :
    Sound (treat s i request scope target rest phase) := by
  have hfits := hs.fits (List.mem_of_getElem? hi)
  -- nothing changes but the phase
  have hphase : ∀ next : Phase Id S,
      (Execution.working request scope (target :: rest) next).Alone s → Sound (s.setExecution i (.working request scope (target :: rest) next)) := fun next halone =>
    hs.setExecution hi trivial rfl (hfits.working (fun _ => id) halone) fun _ _ _ _ _ => id
  cases phase with
  | idle =>
    rw [treat]
    split
    · rename_i blobId _
      by_cases hshared : s.sharedCount blobId target.id = 0
      · rw [if_pos hshared]
        refine hphase _ fun item hitem hblobId => ?_
        by_contra hne
        exact List.countP_eq_zero.mp hshared item hitem (decide_eq_true ⟨hblobId, hne⟩)
      · rw [if_neg hshared]
        exact hphase _ trivial
    · exact hphase _ trivial
  | counted blobId =>
    rw [treat]
    split
    · rename_i blob hblob
      refine hphase _ fun item hitem hnames => ?_
      obtain ⟨other, hother, hid, hsha⟩ := hnames
      have hsame := (hs.sha256 other hother blob (List.mem_of_find?_eq_some hblob)).mpr hsha
      have hread : blob.id = blobId := by simpa using List.find?_some hblob
      rw [hsame, hread] at hid
      exact hfits.alone item hitem hid
    · exact hphase _ trivial
  | found blobId sha256 => exact sound_deleteObject hs hi hquiet
  | removing objectDeleted =>
    rw [treat]
    split
    · exact sound_deleteRows hs hi
    · rename_i hfails
      refine hs.setExecution hi trivial rfl ⟨by rintro _ ⟨⟩, by rintro _ ⟨⟩, trivial⟩ ?_
      intro item hitem hstored _ _ howed
      exact absurd ((hquiet.resolve_left hfails) item hitem howed) hstored

omit [DecidableEq S] in
/-- The items of a run. -/
theorem sound_resolve (hs : Sound s) {i : ℕ} {request : Id} {scope : Scope Id}
    (hi : s.executions[i]? = some (.approved request scope)) :
    Sound (s.setExecution i (.working request scope (s.deletable scope) .idle)) := by
  have hfits := hs.fits (List.mem_of_getElem? hi)
  refine hs.setExecution hi trivial rfl ⟨hfits.scope, ?_, alone_idle⟩ ?_
  · rintro target htarget scope' hscope' item hitem hid
    obtain rfl : scope = scope' := Option.some.inj hscope'
    obtain ⟨item', hitem', rfl⟩ := List.mem_map.mp htarget
    obtain ⟨hitem', hcovers⟩ := List.mem_filter.mp hitem'
    obtain rfl := List.inj_on_of_nodup_map hs.ids hitem hitem' hid
    exact (of_decide_eq_true hcovers).1
  · intro item hitem _ hitemfree hcovers _
    refine ⟨⟨item.id, item.blobId⟩, List.mem_map.mpr ⟨item, List.mem_filter.mpr ⟨hitem, ?_⟩, rfl⟩,
      rfl⟩
    exact decide_eq_true
      ⟨hcovers scope (hfits.scope scope rfl), fun hheld => hheld.not_free hitemfree⟩

omit [DecidableEq S] in
/-- Something else changes. -/
theorem Sound.of_eq (hs : Sound s) (hitems : s'.items = s.items) (hblobs : s'.blobs = s.blobs)
    (hobjects : ∀ sha256 ∈ s.objects, sha256 ∈ s'.objects)
    (hexecutions : s'.executions = s.executions)
    (hscopes : ∀ request, s'.scopeOf request = s.scopeOf request)
    (hfree : ∀ item ∈ s.items, ¬ s.Stored item → s.Free item.id → s'.Free item.id) : Sound s' := by
  have hloses : Loses s s' := .of_eq hitems hblobs
  have hlast : ∀ {i : ℕ} {execution : Execution Id S}, s.Last i execution →
      s'.Last i execution := by
    intro i execution h
    rw [State.Last, hexecutions]
    exact h
  refine hs.of_loses hloses hscopes (fun execution h => .inl (hexecutions ▸ h)) ?_ ?_
  · intro i execution hi hlive
    rw [hexecutions] at hi
    exact hlast (hs.last i execution hi hlive)
  · intro item hitem item' hitem' hwas hstored hdebt
    have hnot : ¬ s.Stored item := fun hold => hstored (hloses.stored hobjects hwas hold)
    obtain ⟨hitemfree, i, execution, scope, hi, howed, hscope, hcovers⟩ := hdebt hnot
    have hnew := hfree item hitem hnot hitemfree
    rw [hwas.id] at hnew howed
    exact ⟨hnew, i, execution, scope, hlast hi, howed, (hscopes _).trans hscope,
      (hwas.covers scope).trans hcovers⟩

omit [DecidableEq S] in
/-- A new execution, when no other one of the request is under way. -/
theorem Sound.deliver (hs : Sound s) {request : Id} {scope : Scope Id}
    (hscope : s.scopeOf request = some scope)
    (hquiet : ∀ execution ∈ s.executions, execution.request = request → ¬ execution.Live) :
    Sound { s with executions := s.executions ++ [.approved request scope] } := by
  have hnew : (s.executions ++ [.approved request scope])[s.executions.length]? =
      some (.approved request scope) := List.getElem?_concat_length
  have hold : ∀ {i : ℕ} {execution : Execution Id S}, s.executions[i]? = some execution →
      (s.executions ++ [.approved request scope])[i]? = some execution := fun hi =>
    (List.getElem?_append_left (List.getElem?_eq_some_iff.mp hi).1).trans hi
  have hcases : ∀ {j : ℕ} {execution : Execution Id S},
      (s.executions ++ [.approved request scope])[j]? = some execution →
        s.executions[j]? = some execution ∨
          j = s.executions.length ∧ execution = .approved request scope := by
    intro j execution hj
    by_cases hlt : j < s.executions.length
    · exact .inl ((List.getElem?_append_left hlt).symm.trans hj)
    · have hle := Nat.not_lt.mp hlt
      rw [List.getElem?_append_right hle] at hj
      have hone : j - s.executions.length < 1 := (List.getElem?_eq_some_iff.mp hj).1
      obtain rfl : j = s.executions.length := by omega
      rw [Nat.sub_self] at hj
      cases hj
      exact .inr ⟨rfl, rfl⟩
  have hlastnew : State.Last { s with executions := s.executions ++ [.approved request scope] }
      s.executions.length (.approved request scope) := by
    refine ⟨hnew, fun j later hlt hj => ?_⟩
    rcases hcases hj with hj | ⟨rfl, -⟩
    · exact absurd (List.getElem?_eq_some_iff.mp hj).1 (Nat.lt_asymm hlt)
    · exact absurd hlt (Nat.lt_irrefl _)
  have hlastold : ∀ {i : ℕ} {execution : Execution Id S}, s.Last i execution →
      execution.request ≠ request →
        State.Last { s with executions := s.executions ++ [.approved request scope] }
          i execution := by
    intro i execution hi hne
    refine ⟨hold hi.1, fun j later hlt hj => ?_⟩
    rcases hcases hj with hj | ⟨-, rfl⟩
    · exact hi.2 j later hlt hj
    · exact hne.symm
  have hloses : Loses s { s with
      executions := s.executions ++ [.approved request scope] } := .of_eq rfl rfl
  refine hs.of_loses hloses (fun _ => rfl) (fun other hother => ?_)
    (fun i execution hi hlive => ?_) ?_
  · refine (List.mem_append.mp hother).imp_right fun hother => ?_
    obtain rfl := List.mem_singleton.mp hother
    refine ⟨?_, by rintro _ ⟨⟩, trivial⟩
    rintro scope' hread
    obtain rfl : scope = scope' := Option.some.inj hread
    exact hscope
  · rcases hcases hi with hi | ⟨rfl, rfl⟩
    · exact hlastold (hs.last i execution hi hlive) fun heq =>
        hquiet execution (List.mem_of_getElem? hi) heq hlive
    · exact hlastnew
  · intro item hitem item' hitem' hwas hnot hdebt
    obtain ⟨hfree, k, execution, scope', hk, howed, hread, hcovers⟩ :=
      hdebt fun hstored => hnot (hloses.stored (fun _ => id) hwas hstored)
    rw [hwas.id] at hfree howed
    rw [← hwas.covers] at hcovers
    refine ⟨hfree, ?_⟩
    by_cases heq : execution.request = request
    · -- the new execution takes over
      rw [heq] at hread
      exact ⟨_, _, scope', hlastnew, trivial, hread, hcovers⟩
    · exact ⟨k, execution, scope', hlastold hk heq, howed, hread, hcovers⟩

omit [DecidableEq S] in
/-- A job is delivered. -/
theorem sound_look (hs : Sound s) {request : Id}
    (hquiet : ∀ execution ∈ s.executions, execution.request = request → ¬ execution.Live) :
    Sound (look s request) := by
  rw [look]
  split
  · rename_i row hrow
    split
    · split
      · exact hs.deliver (by rw [State.scopeOf, hrow]; rfl) hquiet
      · exact hs.of_eq rfl rfl (fun _ => id) rfl (scopeOf_setStatus _ _) fun _ _ _ => id
    · exact hs
  · exact hs

/-- An item is recorded with an object that is there. -/
theorem sound_record (hs : Sound s) {i : ℕ} {sha256 : S} {item blobId : Id}
    {collectionId : Option Id} (hitem : Fresh s item) (hblobId : Fresh s blobId)
    (hstored : sha256 ∈ s.objects)
    (hrelies : ∀ execution ∈ s.executions, ¬ execution.Relies sha256 (s.blobIdOf sha256 blobId)) :
    Sound { s.record sha256 item blobId collectionId with
      acquisitions := s.acquisitions.eraseIdx i } := by
  -- the blobs are the old ones, and one with the hash
  have hblobs : ∀ blob ∈ (s.record sha256 item blobId collectionId).blobs,
      blob ∈ s.blobs ∨ blob = ⟨blobId, sha256⟩ ∧ s.blobOf sha256 = none := by
    intro blob hblob
    rw [State.record] at hblob
    split at hblob
    · exact .inl hblob
    · rename_i hnone
      refine (List.mem_append.mp hblob).imp_right fun hblob => ?_
      exact ⟨List.mem_singleton.mp hblob, Option.not_isSome_iff_eq_none.mp hnone⟩
  have hnoblob : s.blobOf sha256 = none → ∀ blob ∈ s.blobs, blob.sha256 ≠ sha256 := by
    intro hnone blob hblob
    simpa using List.find?_eq_none.mp hnone blob hblob
  have hkeyed : ∀ blob ∈ (s.record sha256 item blobId collectionId).blobs,
      ∀ other ∈ (s.record sha256 item blobId collectionId).blobs,
        blob.id = other.id ↔ blob.sha256 = other.sha256 := by
    intro blob hblob other hother
    rcases hblobs blob hblob with hblob | ⟨rfl, hnone⟩ <;>
      rcases hblobs other hother with hother | ⟨rfl, hnone⟩
    · exact hs.sha256 blob hblob other hother
    · exact iff_of_false (hblobId.2.1 blob hblob) (hnoblob hnone blob hblob)
    · exact iff_of_false (fun h => hblobId.2.1 other hother h.symm)
        fun h => hnoblob hnone other hother h.symm
    · exact iff_of_true rfl rfl
  have hitems : ∀ other ∈ (s.record sha256 item blobId collectionId).items,
      other ∈ s.items ∨ other = ⟨item, collectionId, some (s.blobIdOf sha256 blobId)⟩ :=
    fun other h => (List.mem_append.mp h).imp_right List.mem_singleton.mp
  -- the new item names the hash and no other one
  have hnew : ∀ sha256', (s.record sha256 item blobId collectionId).Names
      ⟨item, collectionId, some (s.blobIdOf sha256 blobId)⟩ sha256' → sha256' = sha256 := by
    rintro sha256' ⟨blob, hblob, hid, rfl⟩
    have hid' : s.blobIdOf sha256 blobId = blob.id := Option.some.inj hid
    rw [State.blobIdOf] at hid'
    rcases hblobs blob hblob with hold | ⟨rfl, -⟩
    · cases hfound : s.blobOf sha256 with
      | none =>
        rw [hfound] at hid'
        exact absurd hid'.symm (hblobId.2.1 blob hold)
      | some found =>
        rw [hfound] at hid'
        have hsha : found.sha256 = sha256 := by simpa using List.find?_some hfound
        have hmem := List.mem_of_find?_eq_some hfound
        exact ((hs.sha256 found hmem blob hold).mp hid').symm.trans hsha
    · rfl
  have hold : ∀ other ∈ s.items, ∀ sha256',
      (s.record sha256 item blobId collectionId).Names other sha256' →
        s.Names other sha256' ∨ sha256' = sha256 := by
    rintro other - sha256' ⟨blob, hblob, hid, rfl⟩
    rcases hblobs blob hblob with hblob | ⟨rfl, -⟩
    · exact .inl ⟨blob, hblob, hid, rfl⟩
    · exact .inr rfl
  refine {
    sha256 := hkeyed
    ids := ?_
    scopes := hs.scopes
    covers := fun execution hmem target htarget scope hscope other hother hid => ?_
    alone := fun execution hmem => ?_
    last := hs.last
    owed := fun other hother => ?_ }
  · change ((s.items ++ [_]).map Item.id).Nodup
    rw [List.map_append]
    refine hs.ids.append (List.nodup_singleton _) fun id hid hid' => ?_
    obtain rfl := List.mem_singleton.mp hid'
    obtain ⟨other, hother, heq⟩ := List.mem_map.mp hid
    exact hitem.1 other hother heq
  · rcases hitems other hother with hother | rfl
    · exact hs.covers execution hmem target htarget scope hscope other hother hid
    · exact absurd hid.symm (hitem.2.2 execution hmem target htarget)
  · have halone := hs.alone execution hmem
    have hnot := hrelies execution hmem
    rcases execution with _ | ⟨request, scope, _ | ⟨target, rest⟩, phase⟩ | _ | _
    · trivial
    · trivial
    · cases phase with
      | idle => trivial
      | counted counted =>
        intro other hother hid
        rcases hitems other hother with hother | rfl
        · exact halone other hother hid
        · exact absurd (Option.some.inj hid).symm hnot
      | found counted found =>
        intro other hother hnames
        rcases hitems other hother with hother | rfl
        · rcases hold other hother found hnames with hnames | rfl
          · exact halone other hother hnames
          · exact absurd rfl hnot
        · exact absurd (hnew found hnames) hnot
      | removing objectDeleted => trivial
    · trivial
    · trivial
  · rcases hitems other hother with hother | rfl
    · refine (hs.owed other hother).imp_left fun hother' => ?_
      intro sha256' hnames
      rcases hold other hother sha256' hnames with hnames | rfl
      · exact hother' sha256' hnames
      · exact hstored
    · refine .inl fun sha256' hnames => ?_
      rw [hnew sha256' hnames]
      exact hstored

theorem sound_step {e : Event Id S} (hs : Sound s) (hquiet : Quiet s e) (h : step s e = some s') :
    Sound s' := by
  cases e with
  | look request =>
    cases h
    exact sound_look hs hquiet
  | resolve i =>
    simp only [step] at h
    split at h <;> cases h
    rename_i request scope hi
    exact sound_resolve hs hi
  | next i =>
    simp only [step] at h
    split at h
    · rename_i request scope target rest phase hi
      cases h
      exact sound_treat hs hi (hquiet _ hi)
    · rename_i request scope phase hi
      cases h
      have hloses : Loses s ((s.setStatus request .executed).setExecution i (.ended request)) :=
        .of_eq rfl rfl
      refine hs.advance hloses (fun _ => id) (scopeOf_setStatus _ _) (fun _ => id)
        (.ended request) hi trivial rfl rfl ⟨by rintro _ ⟨⟩, by rintro _ ⟨⟩, trivial⟩ ?_
      rintro other - - - - ⟨target, htarget, -⟩
      cases htarget
    · cases h
  | refuse i =>
    simp only [step] at h
    split at h <;> cases h
    rename_i request scope target rest blobId sha256 hi
    have hfits := hs.fits (List.mem_of_getElem? hi)
    refine hs.setExecution hi trivial rfl
      (hfits.working (fun _ => List.mem_cons_of_mem _) alone_idle) ?_
    rintro other hother hnot - - ⟨target', htarget', hid⟩
    rcases List.mem_cons.mp htarget' with rfl | htarget'
    · exact absurd (hquiet _ hi target' rfl other hother hid.symm) hnot
    · exact ⟨target', htarget', hid⟩
  | kill i =>
    simp only [step] at h
    split at h <;> cases h
    · rename_i request scope hi
      exact hs.setExecution hi trivial rfl ⟨by rintro _ ⟨⟩, by rintro _ ⟨⟩, trivial⟩
        fun _ _ _ _ _ _ => trivial
    · rename_i request scope rest phase hi
      exact hs.setExecution hi trivial rfl ⟨by rintro _ ⟨⟩, by rintro _ ⟨⟩, trivial⟩
        fun _ _ _ _ _ _ => trivial
  | setHold c enabled =>
    cases h
    exact hs.of_eq rfl rfl (fun _ => id) rfl (fun _ => rfl) fun _ _ _ => id
  | addToCase c item =>
    simp only [step] at h
    split at h <;> cases h
    refine hs.of_eq rfl rfl (fun _ => id) rfl (fun _ => rfl) fun other hother hnot hfree => ?_
    refine ⟨fun row hrow heq => ?_, hfree.2⟩
    rcases List.mem_cons.mp hrow with rfl | hrow
    · exact hnot (hquiet other hother heq.symm)
    · exact hfree.1 row hrow heq
  | refer item =>
    simp only [step] at h
    split at h <;> cases h
    refine hs.of_eq rfl rfl (fun _ => id) rfl (fun _ => rfl) fun other hother hnot hfree => ?_
    refine ⟨hfree.1, fun hmem => ?_⟩
    rcases List.mem_cons.mp hmem with heq | hmem
    · exact hnot (hquiet other hother heq)
    · exact hfree.2 hmem
  | promote sha256 =>
    cases h
    refine hs.of_eq rfl rfl (fun other hother => ?_) rfl (fun _ => rfl) fun _ _ _ => id
    change other ∈ if sha256 ∈ s.objects then s.objects else sha256 :: s.objects
    split
    · exact hother
    · exact List.mem_cons_of_mem _ hother
  | record i item blobId collectionId =>
    obtain ⟨sha256, hi, h⟩ := Option.bind_eq_some_iff.mp h
    split at h <;> cases h
    rename_i hfresh
    obtain ⟨hstored, hrelies⟩ := hquiet sha256 hi
    exact sound_record hs hfresh.1 hfresh.2 hstored hrelies

/-! ## Protection -/

omit [DecidableEq Id] [DecidableEq S] in
/-- Where no row and no object goes, nothing happens to what is protected. -/
theorem Protects.of_kept {e : Event Id S}
    (hitems : ∀ item ∈ s.items, ∃ other ∈ s'.items, other.id = item.id)
    (hobjects : ∀ sha256 ∈ s.objects, sha256 ∈ s'.objects) : Protects s e s' where
  rows item hitem hgone := by
    obtain ⟨other, hother, hid⟩ := hitems item hitem
    exact absurd hid (hgone other hother)
  objects sha256 hmem hgone := absurd (hobjects sha256 hmem) hgone

omit [DecidableEq S] in
/-- Only the row of the target is deleted. -/
theorem mem_deleteRows {target : Target Id} {objectDeleted : Bool} {item : Item Id}
    (hitem : item ∈ s.items) (hne : item.id ≠ target.id) :
    ∃ other ∈ (s.deleteRows target objectDeleted).items, other.id = item.id := by
  have hkept : item ∈ (s.deleteItem target.id).items :=
    List.mem_filter.mpr ⟨hitem, decide_eq_true hne⟩
  rw [State.deleteRows]
  split
  · split
    · refine ⟨_, List.mem_map_of_mem hkept, ?_⟩
      split <;> rfl
    · exact ⟨item, hkept, rfl⟩
  · exact ⟨item, hkept, rfl⟩

theorem protects_treat (hs : Sound s) {i : ℕ} {request : Id} {scope : Scope Id}
    {target : Target Id} {rest : List (Target Id)} {phase : Phase Id S}
    (hi : s.executions[i]? = some (.working request scope (target :: rest) phase))
    (hquiet : NextQuiet s (.working request scope (target :: rest) phase)) :
    Protects s (.next i) (treat s i request scope target rest phase) := by
  cases phase with
  | idle | counted blobId =>
    rw [treat]
    split <;> exact .of_kept (fun item hitem => ⟨item, hitem, rfl⟩) fun _ => id
  | found blobId sha256 =>
    refine ⟨fun item hitem hgone => absurd rfl (hgone item hitem), ?_⟩
    intro sha256' hmem hgone item hitem hnames
    have hsame : sha256' = sha256 := by
      by_contra hne
      exact hgone (List.mem_filter.mpr ⟨hmem, decide_eq_true hne⟩)
    subst hsame
    have hid : item.id = target.id := hs.alone _ (List.mem_of_getElem? hi) item hitem hnames
    refine ⟨fun hheld => ?_, i, _, rfl, hi, target, List.mem_cons_self, hid.symm⟩
    rw [hid] at hheld
    exact hheld.not_free hquiet
  | removing objectDeleted =>
    rw [treat]
    split
    · rename_i hrow
      refine ⟨fun item hitem hgone hheld => ?_, fun sha256 hmem hgone => ?_⟩
      · by_cases hid : item.id = target.id
        · rw [hid] at hheld
          exact hheld.not_free hrow.2
        · have hkept : ∃ other ∈ (s.deleteRows target objectDeleted).items, other.id = item.id :=
            mem_deleteRows hitem hid
          obtain ⟨other, hother, heq⟩ := hkept
          exact hgone other hother heq
      · have hobjects := (deleteRows_others (s := s) target objectDeleted).2.2.1
        exact absurd (hobjects ▸ hmem) hgone
    · exact .of_kept (fun item hitem => ⟨item, hitem, rfl⟩) fun _ => id

theorem protects_step {e : Event Id S} (hs : Sound s) (hquiet : Quiet s e)
    (h : step s e = some s') : Protects s e s' := by
  have hsame : ∀ {s' : State Id S}, s'.items = s.items → s'.objects = s.objects →
      Protects s e s' := fun hitems hobjects =>
    .of_kept (fun item hitem => ⟨item, hitems ▸ hitem, rfl⟩) fun _ hmem => hobjects ▸ hmem
  cases e with
  | look request =>
    cases h
    rw [look]
    split
    · split
      · split <;> exact hsame rfl rfl
      · exact hsame rfl rfl
    · exact hsame rfl rfl
  | resolve i | refuse i | addToCase c item | refer item =>
    simp only [step] at h
    split at h <;> cases h
    exact hsame rfl rfl
  | next i =>
    simp only [step] at h
    split at h
    · rename_i request scope target rest phase hi
      cases h
      exact protects_treat hs hi (hquiet _ hi)
    · cases h
      exact hsame rfl rfl
    · cases h
  | kill i =>
    simp only [step] at h
    split at h <;> cases h <;> exact hsame rfl rfl
  | setHold c enabled =>
    cases h
    exact hsame rfl rfl
  | promote sha256 =>
    cases h
    refine .of_kept (fun item hitem => ⟨item, hitem, rfl⟩) fun other hother => ?_
    change other ∈ if sha256 ∈ s.objects then s.objects else sha256 :: s.objects
    split
    · exact hother
    · exact List.mem_cons_of_mem _ hother
  | record i item blobId collectionId =>
    obtain ⟨sha256, hi, h⟩ := Option.bind_eq_some_iff.mp h
    split at h <;> cases h
    exact .of_kept (fun other hother => ⟨other, List.mem_append_left _ hother, rfl⟩) fun _ => id

/-! ## Runs -/

omit [DecidableEq Id] [DecidableEq S] in
/-- Evidence as it is acquired, and no run of a deletion yet. -/
structure Initial (s : State Id S) : Prop where
  sha256 : ∀ blob ∈ s.blobs, ∀ other ∈ s.blobs, blob.id = other.id ↔ blob.sha256 = other.sha256
  ids : (s.items.map Item.id).Nodup
  intact : s.Intact
  executions : s.executions = []

omit [DecidableEq S] in
theorem Initial.sound (hs : Initial s) : Sound s where
  sha256 := hs.sha256
  ids := hs.ids
  scopes := by
    rw [hs.executions]
    rintro _ ⟨⟩
  covers := by
    rw [hs.executions]
    rintro _ ⟨⟩
  alone := by
    rw [hs.executions]
    rintro _ ⟨⟩
  last := by
    rw [hs.executions]
    rintro _ _ ⟨⟩
  owed item hitem := .inl (hs.intact item hitem)

omit [DecidableEq S] in
/-- When nothing is outstanding, nothing is owed. -/
theorem Sound.intact (hs : Sound s) (hfinished : Finished s) : s.Intact := by
  intro item hitem
  refine (hs.owed item hitem).resolve_right ?_
  rintro ⟨-, i, execution, scope, hlast, howes, -⟩
  obtain ⟨hdead, hkilled⟩ := hfinished i execution hlast.1
  cases execution with
  | approved request scope => exact hdead trivial
  | working request scope rest phase => exact hdead trivial
  | ended request => exact howes
  | killed request =>
    obtain ⟨j, later, hlt, hj, heq⟩ := hkilled request rfl
    exact hlast.2 j later hlt hj heq

/-- **Evidence is protected** by every event of a run, and no item is left without its object. -/
def Protected (s : State Id S) (es : List (Event Id S)) : Prop :=
  Always step (fun s e => ∀ s', step s e = some s' → Protects s e s') s es ∧
    ∀ t, run step s es = some t → Finished t → t.Intact

/-- **A run in which others leave alone what a deletion relies on protects the evidence.** -/
theorem protected_of_quiet {es : List (Event Id S)} (hs : Initial s)
    (hquiet : Always step Quiet s es) : Protected s es := by
  refine ⟨?_, fun t ht hfinished => ?_⟩
  · exact Always.imp (fun _ _ _ => sound_step) (fun _ _ hs hquiet _ => protects_step hs hquiet)
      hs.sound hquiet
  · have hsound : Sound t := Always.run_induction (fun _ _ _ => sound_step) hs.sound hquiet ht
    exact hsound.intact hfinished

end Sound

/-! ### One item to delete -/

/-- A tenant with one item, perhaps in a case, and an approved request to delete it. -/
def filed (caseItems : List (ℕ × ℕ)) : State ℕ ℕ where
  items := [⟨1, none, some 10⟩]
  blobs := [⟨10, 100⟩]
  objects := [100]
  held := []
  caseItems := caseItems
  references := []
  requests := [⟨50, .evidenceItems [1], .approved, some 8, some 9⟩]
  executions := []
  acquisitions := []

theorem initial_filed (caseItems : List (ℕ × ℕ)) : Initial (filed caseItems) where
  sha256 blob hblob other hother := by
    obtain rfl := List.mem_singleton.mp hblob
    obtain rfl := List.mem_singleton.mp hother
    exact iff_of_true rfl rfl
  ids := List.nodup_singleton _
  intact item hitem := by
    obtain rfl := List.mem_singleton.mp hitem
    rintro sha256 ⟨blob, hblob, -, rfl⟩
    obtain rfl := List.mem_singleton.mp hblob
    exact List.mem_singleton_self _
  executions := rfl

/-- The worker is killed when the object is gone, and the job is delivered again; then the same
content is acquired once more. -/
def repeated : List (Event ℕ ℕ) :=
  [.look 50, .resolve 0, .next 0, .next 0, .next 0, .kill 0, .look 50, .resolve 1, .next 1, .next 1,
    .next 1, .next 1, .next 1, .promote 100, .setHold 7 true, .record 0 2 11 none, .addToCase 7 2]

theorem repeated_protected : Protected (filed []) repeated :=
  protected_of_quiet (initial_filed []) (by decide +kernel)

/-- The case of the item is put on hold when the run has read it. -/
def heldLate : List (Event ℕ ℕ) :=
  [.look 50, .resolve 0, .next 0, .next 0, .setHold 7 true, .next 0]

/-- The same content is acquired when the other items have been counted. -/
def acquiredLate : List (Event ℕ ℕ) :=
  [.promote 100, .look 50, .resolve 0, .next 0, .record 0 2 11 none, .next 0, .next 0]

/-- Nobody else does anything. -/
def undisturbed : List (Event ℕ ℕ) :=
  [.look 50, .resolve 0, .next 0, .next 0, .next 0, .next 0]

/-- What the last event of a run must not do. -/
theorem not_protected_of_event {s t t' : State ℕ ℕ} {es : List (Event ℕ ℕ)} {e : Event ℕ ℕ}
    (hrun : run step s es = some t) (hstep : step t e = some t') (h : ¬ Protects t e t') :
    ¬ Protected s (es ++ [e]) := by
  rintro ⟨hprotects, -⟩
  exact h (((Always.append.mp hprotects).2 t hrun).1 t' hstep)

/-- **Held evidence loses its object, an object is deleted that another item needs, and an item in
an open case is left without its object.** -/
theorem not_protected :
    ¬ Protected (filed [(7, 1)]) heldLate ∧ ¬ Protected (filed []) acquiredLate ∧
      ¬ Protected (filed [(7, 1)]) undisturbed := by
  refine ⟨?_, ?_, ?_⟩
  · refine @not_protected_of_event _ _ _ heldLate.dropLast (.next 0) rfl rfl fun h => ?_
    refine (h.objects 100 (by decide) (by decide) ⟨1, none, some 10⟩ (by decide) ?_).1 ?_
    · exact ⟨⟨10, 100⟩, List.mem_singleton_self _, rfl, rfl⟩
    · exact ⟨7, List.mem_singleton_self _, List.mem_singleton_self _⟩
  · refine @not_protected_of_event _ _ _ acquiredLate.dropLast (.next 0) rfl rfl fun h => ?_
    have hother := (h.objects 100 (by decide) (by decide) ⟨2, none, some 10⟩ (by decide)
      ⟨⟨10, 100⟩, List.mem_singleton_self _, rfl, rfl⟩).2
    obtain ⟨i, execution, heq, hi, target, htarget, hid⟩ := hother
    cases heq
    cases hi
    obtain rfl := List.mem_singleton.mp htarget
    cases hid
  · rintro ⟨-, h⟩
    have hintact := h _ rfl ?_ ⟨1, none, some 10⟩ (List.mem_singleton_self _)
    · cases hintact 100 ⟨⟨10, 100⟩, List.mem_singleton_self _, rfl, rfl⟩
    · -- its only execution has thrown
      intro i execution hi
      obtain rfl : i = 0 := Nat.lt_one_iff.mp (List.getElem?_eq_some_iff.mp hi).1
      cases hi
      exact ⟨id, by rintro _ ⟨⟩⟩

end AegCloudDfir.Deletion
