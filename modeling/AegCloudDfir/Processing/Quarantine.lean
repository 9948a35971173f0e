import AegCloudDfir.Lib.Places
import AegCloudDfir.Lib.Transition
import AegCloudDfir.Production.Tables

/-!
# Quarantine

`processScan` of `apps/worker/src/processors/process-scan.ts` reads an item and its blob, has the
bytes scanned, and when they are infected and no other item has the blob, copies the object to the
quarantine bucket, deletes the original, and updates the rows, each in a step of its own. Meanwhile
other items are scanned, and items with the same bytes are acquired, which promotes their own copy
to the original key and finds the blob by its digest.

Objects are addressed by content: a key is made of the digest of what is stored there. The staged
copies, which have keys of their own, are left out.

* `step` — rows, objects and executions.
* `Whole` — no bytes are stranded, every URL is right, and no infected bytes stay where they were.
* `contained_and_whole_iff` — what is so after a careful run.
-/

namespace AegCloudDfir.Processing.Quarantine

open Transition
open AegCloudDfir.Production (MalwareStatus)

variable {Id S : Type}

/-! ## Rows and objects -/

/-- `storageClass` -/
inductive StorageClass : Type where
  | standard
  | quarantine
  deriving DecidableEq

/-- The buckets. -/
inductive Bucket : Type where
  | evidence
  | quarantine
  deriving DecidableEq

/-- `originalKey` and `quarantineKey` of a digest -/
inductive Key (S : Type) : Type where
  | original (sha256 : S)
  | quarantine (sha256 : S)
  deriving DecidableEq

/-- The digest of what is stored at a key. -/
def Key.digest : Key S → S
  | .original sha256 | .quarantine sha256 => sha256

/-- A row of `evidence_blobs` -/
structure Blob (Id S : Type) where
  id : Id
  sha256 : S
  storageClass : StorageClass
  objectKey : Key S
  deriving DecidableEq

/-- The bucket of a blob. -/
def Blob.bucket (blob : Blob Id S) : Bucket :=
  match blob.storageClass with
  | .quarantine => .quarantine
  | .standard => .evidence

/-- `ScanResult` -/
inductive ScanResult : Type where
  | clean
  | infected
  | scanFailed
  deriving DecidableEq

/-- The malware status that a result sets. -/
def ScanResult.status : ScanResult → MalwareStatus
  | .clean => .clean
  | .infected => .infected
  | .scanFailed => .scanFailed

/-- A row of `evidence_items`, with the result of its latest scan. -/
structure Item (Id : Type) where
  id : Id
  blobId : Option Id
  malwareStatus : MalwareStatus
  scan : Option ScanResult
  deriving DecidableEq

/-- How far an execution is. -/
inductive Phase : Type where
  /-- the item was read -/
  | read
  | infected
  /-- the other items with the blob were counted -/
  | counted (sharedCount : ℕ)
  | staged
  /-- the copy is in the quarantine bucket -/
  | promoted
  /-- the original was deleted, or the store refused -/
  | removed
  deriving DecidableEq

/-- An execution of `processScan`, with the blob as it was read. -/
inductive Execution (Id S : Type) : Type where
  | working (item : Id) (blob : Option (Blob Id S)) (phase : Phase)
  | ended (item : Id)
  /-- killed, or it threw -/
  | killed (item : Id)
  deriving DecidableEq

namespace Execution

/-- The item of an execution. -/
def item : Execution Id S → Id
  | working item _ _ | ended item | killed item => item

/-- It is under way. -/
def Live : Execution Id S → Prop
  | working _ _ _ => True
  | ended _ | killed _ => False

instance (execution : Execution Id S) : Decidable execution.Live := by
  unfold Live
  split <;> exact inferInstance

/-- It has deleted the original of the blob, or tried to, and has not updated the row. -/
def Removed (blobId : Id) : Execution Id S → Prop
  | working _ (some blob) .removed => blob.id = blobId
  | _ => False

end Execution

/-- The database, the buckets, and what is under way. -/
structure State (Id S : Type) where
  items : List (Item Id)
  blobs : List (Blob Id S)
  objects : List (Bucket × Key S)
  executions : List (Execution Id S)
  /-- what was promoted, but not yet recorded -/
  acquisitions : List S
  /-- the originals that the store refused to delete -/
  refused : List S

namespace State

variable (s : State Id S)

/-- The object that a blob names is there, and is what it should be. -/
def Names (blob : Blob Id S) : Prop :=
  (blob.bucket, blob.objectKey) ∈ s.objects ∧ blob.objectKey.digest = blob.sha256

/-- Another item that is not infected has the blob. -/
def Spared (item blobId : Id) : Prop :=
  ∃ other ∈ s.items, other.id ≠ item ∧ other.blobId = some blobId ∧ other.malwareStatus ≠ .infected

/-- The bytes are not in the evidence bucket, or the store did not let them be deleted. -/
def Out (sha256 : S) : Prop :=
  (Bucket.evidence, Key.original sha256) ∉ s.objects ∨ sha256 ∈ s.refused

variable [DecidableEq Id] [DecidableEq S]

instance (blob : Blob Id S) : Decidable (s.Names blob) := inferInstanceAs (Decidable (_ ∧ _))

instance (item blobId : Id) : Decidable (s.Spared item blobId) :=
  inferInstanceAs (Decidable (∃ other ∈ s.items, _))

instance (sha256 : S) : Decidable (s.Out sha256) := inferInstanceAs (Decidable (_ ∨ _))

/-- The blob of an item. -/
def blobOf (item : Item Id) : Option (Blob Id S) :=
  item.blobId.bind fun blobId => s.blobs.find? fun blob => blob.id = blobId

/-- An execution goes on. -/
def setExecution (i : ℕ) (execution : Execution Id S) : State Id S :=
  { s with executions := s.executions.set i execution }

/-- `sharedCount` -/
def sharedCount (blobId item : Id) : ℕ :=
  s.items.countP fun other => other.blobId = some blobId ∧ other.id ≠ item

/-- The item's row is updated. -/
def setStatus (item : Id) (status : MalwareStatus) (scan : Option ScanResult) : State Id S :=
  { s with
    items := s.items.map fun other =>
      if other.id = item then { other with malwareStatus := status, scan := scan.or other.scan }
      else other }

/-- `finishWithResult`, and the row of an infected item -/
def finish (item : Id) (result : ScanResult) : State Id S :=
  s.setStatus item result.status (some result)

/-- The blob's row says where its object was moved. -/
def moveBlob (blob : Blob Id S) : State Id S :=
  { s with
    blobs := s.blobs.map fun row =>
      if row.id = blob.id then
        { row with storageClass := .quarantine, objectKey := .quarantine blob.sha256 }
      else row }

/-- `PutObject` -/
def put (bucket : Bucket) (key : Key S) : State Id S :=
  { s with objects := if (bucket, key) ∈ s.objects then s.objects else (bucket, key) :: s.objects }

omit [DecidableEq Id] in
theorem mem_put {bucket : Bucket} {key : Key S} : (bucket, key) ∈ (s.put bucket key).objects := by
  rw [put]
  split
  next hmem => exact hmem
  next => exact List.mem_cons_self

/-- `DeleteObjectCommand` -/
def deleteObject (bucket : Bucket) (key : Key S) : State Id S :=
  { s with objects := s.objects.filter fun object => object ≠ (bucket, key) }

end State

/-- `presignGet`: the bucket and the key that the URL names. -/
def presignGet (key : Key S) : Bucket × Key S := (.evidence, key)

/-! ## What can happen -/

/-- What becomes of the scan itself. -/
inductive Verdict : Type where
  /-- no scanner, no blob, or the scanner or the store failed -/
  | failed
  | clean
  | infected
  /-- the object is not there -/
  | missing
  deriving DecidableEq

/-- What can happen next. -/
inductive Event (Id S : Type) : Type where
  /-- a job for the item is delivered, for the first time or again -/
  | deliver (item : Id)
  | scan (i : ℕ) (verdict : Verdict)
  /-- an execution that has found an infection does what comes next -/
  | next (i : ℕ)
  /-- the store refuses to delete the original -/
  | refuse (i : ℕ)
  | kill (i : ℕ)
  /-- an acquisition stores its copy, unless it is there -/
  | promote (sha256 : S)
  /-- its rows are written -/
  | record (i : ℕ) (item blobId : Id)
  deriving DecidableEq

section Steps

variable [DecidableEq Id] [DecidableEq S]

/-- What the scan of the item comes to. -/
def scanned (s : State Id S) (i : ℕ) (item : Id) (blob : Option (Blob Id S)) :
    Verdict → Option (State Id S)
  | .failed => some ((s.finish item .scanFailed).setExecution i (.ended item))
  | .clean =>
    if ∃ b ∈ blob, (b.bucket, b.objectKey) ∈ s.objects then
      some ((s.finish item .clean).setExecution i (.ended item))
    else none
  | .infected =>
    if ∃ b ∈ blob, (b.bucket, b.objectKey) ∈ s.objects then
      some (s.setExecution i (.working item blob .infected))
    else none
  | .missing =>
    if ∃ b ∈ blob, (b.bucket, b.objectKey) ∉ s.objects then
      some ((s.setStatus item .objectMissing none).setExecution i (.ended item))
    else none

/-- What an execution does that has found an infection. -/
def treat (s : State Id S) (i : ℕ) (item : Id) (blob : Blob Id S) : Phase → Option (State Id S)
  | .read => none
  | .infected =>
    some (s.setExecution i (.working item (some blob) (.counted (s.sharedCount blob.id item))))
  | .counted sharedCount =>
    if sharedCount = 0 ∧ blob.storageClass ≠ .quarantine then
      -- the original is read and staged once more
      if (Bucket.evidence, blob.objectKey) ∈ s.objects then
        some (s.setExecution i (.working item (some blob) .staged))
      else some (s.setExecution i (.killed item))
    else some ((s.finish item .infected).setExecution i (.ended item))
  | .staged =>
    some ((s.put .quarantine (.quarantine blob.objectKey.digest)).setExecution i
      (.working item (some blob) .promoted))
  | .promoted =>
    some ((s.deleteObject .evidence blob.objectKey).setExecution i
      (.working item (some blob) .removed))
  | .removed => some (((s.finish item .infected).moveBlob blob).setExecution i (.ended item))

/-- What an event does. -/
def step (s : State Id S) : Event Id S → Option (State Id S)
  | .deliver id =>
    match s.items.find? fun item => item.id = id with
    | some item =>
      if ∃ result ∈ item.scan, result ≠ .scanFailed then some s
      else some { s with
        executions := s.executions ++ [.working item.id (s.blobOf item) .read] }
    | none => some s
  | .scan i verdict =>
    match s.executions[i]? with
    | some (.working item blob .read) => scanned s i item blob verdict
    | _ => none
  | .next i =>
    match s.executions[i]? with
    | some (.working item (some blob) phase) => treat s i item blob phase
    | _ => none
  | .refuse i =>
    match s.executions[i]? with
    | some (.working item (some blob) .promoted) =>
      some { s.setExecution i (.working item (some blob) .removed) with
        refused := blob.objectKey.digest :: s.refused }
    | _ => none
  | .kill i =>
    match s.executions[i]? with
    | some (.working item _ _) => some (s.setExecution i (.killed item))
    | _ => none
  | .promote sha256 =>
    some { s.put .evidence (.original sha256) with acquisitions := s.acquisitions ++ [sha256] }
  | .record i item blobId =>
    s.acquisitions[i]?.bind fun sha256 =>
      if (∀ other ∈ s.items, other.id ≠ item) ∧ ∀ blob ∈ s.blobs, blob.id ≠ blobId then
        let found := s.blobs.find? fun blob => blob.sha256 = sha256
        some { s with
          blobs :=
            if found.isSome then s.blobs
            else s.blobs ++ [⟨blobId, sha256, .standard, .original sha256⟩]
          items := s.items ++ [⟨item, some ((found.map Blob.id).getD blobId), .notScanned, none⟩]
          acquisitions := s.acquisitions.eraseIdx i }
      else none

end Steps

/-! ## What is asked for -/

/-- Every execution that was killed was followed by one that came to its end. -/
def Redelivered (s : State Id S) : Prop :=
  ∀ i < s.executions.length, ∀ execution ∈ s.executions[i]?, ¬ execution.Live ∧
    (execution = .killed execution.item →
      ∃ j < s.executions.length, i < j ∧ s.executions[j]? = some (.ended execution.item))

instance [DecidableEq Id] [DecidableEq S] (s : State Id S) : Decidable (Redelivered s) :=
  inferInstanceAs (Decidable (∀ i < s.executions.length, _))

/-- No bytes are stranded. -/
def Stored (s : State Id S) : Prop :=
  Redelivered s → ∀ item ∈ s.items, ∀ blob ∈ s.blobs, item.blobId = some blob.id → s.Names blob

/-- No bytes are leaked. -/
def Contained (s : State Id S) : Prop :=
  Redelivered s → s.acquisitions = [] → ∀ item ∈ s.items, item.malwareStatus = .infected →
    ∀ blob ∈ s.blobs, item.blobId = some blob.id → s.Spared item.id blob.id ∨ s.Out blob.sha256

/-- **Quarantine neither strands nor leaks bytes.** -/
structure Whole (s : State Id S) : Prop where
  stored : Stored s
  presigned : ∀ blob ∈ s.blobs, presignGet blob.objectKey = (blob.bucket, blob.objectKey)
  contained : Contained s

/-! ## What it takes -/

section Careful

variable [DecidableEq Id] [DecidableEq S]

/-- An item whose infection is recorded without moving its blob shares it with one that is not
infected, or its bytes are out already. -/
def NextCareful (s : State Id S) : Execution Id S → Prop
  | .working item (some blob) (.counted sharedCount) =>
    ¬ (sharedCount = 0 ∧ blob.storageClass ≠ .quarantine) →
      s.Spared item blob.id ∨ s.Out blob.sha256
  | _ => True

/-- The execution can end early: it leaves no blob without its object. -/
def Execution.Leavable (s : State Id S) : Execution Id S → Prop
  | .working _ (some blob) .removed => ∀ row ∈ s.blobs, row.id = blob.id → s.Names row
  | _ => True

/-- **What keeps bytes from being stranded or leaked**: an execution is not killed between deleting
the original and updating the row; nothing is promoted to the key of a blob whose original was
deleted; and of items with the same blob, not all are recorded infected while it stays where it
is. -/
def Careful (s : State Id S) : Event Id S → Prop
  | .next i => ∀ execution ∈ s.executions[i]?, NextCareful s execution
  | .kill i => ∀ execution ∈ s.executions[i]?, execution.Leavable s
  | .promote sha256 => (Bucket.evidence, Key.original sha256) ∈ s.objects ∨
    ∀ blob ∈ s.blobs, blob.sha256 ≠ sha256
  | _ => True

instance (s : State Id S) (execution : Execution Id S) : Decidable (NextCareful s execution) := by
  unfold NextCareful
  split
  · exact inferInstance
  · exact inferInstance

instance (s : State Id S) (execution : Execution Id S) : Decidable (execution.Leavable s) := by
  unfold Execution.Leavable
  split
  · exact inferInstance
  · exact inferInstance

instance (s : State Id S) (e : Event Id S) : Decidable (Careful s e) := by
  unfold Careful
  split
  · exact inferInstance
  · exact inferInstance
  · exact inferInstance
  · exact inferInstance

end Careful

/-! ## Where the bytes are -/

/-- A blob's key is that of its class. -/
def Blob.Wellformed (blob : Blob Id S) : Prop :=
  blob.objectKey = match blob.storageClass with
    | .standard => .original blob.sha256
    | .quarantine => .quarantine blob.sha256

theorem Blob.Wellformed.digest {blob : Blob Id S} (h : blob.Wellformed) :
    blob.objectKey.digest = blob.sha256 := by
  rw [h]
  split <;> rfl

theorem Blob.Wellformed.standard {blob : Blob Id S} (h : blob.Wellformed)
    (hclass : blob.storageClass = .standard) : blob.objectKey = .original blob.sha256 := by
  rw [h, hclass]

/-- What is true of the blob that an execution has read. -/
structure Snapshot (s : State Id S) (item : Id) (blob : Blob Id S) (phase : Phase) : Prop where
  wellformed : blob.Wellformed
  row : ∃ row ∈ s.blobs, row.id = blob.id ∧ row.sha256 = blob.sha256
  known : ∃ other ∈ s.items, other.id = item
  blobId : ∀ other ∈ s.items, other.id = item → other.blobId = some blob.id
  standard : phase = .staged ∨ phase = .promoted ∨ phase = .removed →
    blob.storageClass = .standard
  copied : phase = .promoted ∨ phase = .removed →
    (Bucket.quarantine, Key.quarantine blob.sha256) ∈ s.objects
  out : phase = .removed → s.Out blob.sha256

/-- The same for an execution. -/
def Execution.Sound (s : State Id S) : Execution Id S → Prop
  | .working item (some blob) phase => Snapshot s item blob phase
  | .working item none _ => ∃ other ∈ s.items, other.id = item
  | _ => True

/-- **Where the bytes are** as long as every event is careful. -/
structure Sound (s : State Id S) : Prop where
  items : ∀ item ∈ s.items, ∀ other ∈ s.items, item.id = other.id → item = other
  blobs : ∀ blob ∈ s.blobs, ∀ other ∈ s.blobs, blob.id = other.id ↔ blob.sha256 = other.sha256
  references : ∀ item ∈ s.items, ∀ blobId ∈ item.blobId, ∃ blob ∈ s.blobs, blob.id = blobId
  wellformed : ∀ blob ∈ s.blobs, blob.Wellformed
  executions : ∀ execution ∈ s.executions, execution.Sound s
  named : ∀ blob ∈ s.blobs, (blob.bucket, blob.objectKey) ∈ s.objects ∨
    ∃ execution ∈ s.executions, execution.Removed blob.id
  moved : ∀ blob ∈ s.blobs, blob.storageClass = .quarantine → s.Out blob.sha256
  infected : ∀ item ∈ s.items, item.malwareStatus = .infected → ∀ blob ∈ s.blobs,
    item.blobId = some blob.id → s.Spared item.id blob.id ∨ s.Out blob.sha256
  acquired : ∀ sha256 ∈ s.acquisitions, (Bucket.evidence, Key.original sha256) ∈ s.objects ∨
    ∃ blob ∈ s.blobs, blob.sha256 = sha256

section Steps

variable {s s' : State Id S}

theorem Execution.Removed.live {execution : Execution Id S} {blobId : Id}
    (h : execution.Removed blobId) : execution.Live := by
  unfold Execution.Removed at h
  split at h
  · trivial
  · exact h.elim

theorem Sound.stored (hs : Sound s) : Stored s := by
  intro hredelivered item _ blob hblob _
  refine ⟨(hs.named blob hblob).resolve_right ?_, (hs.wellformed blob hblob).digest⟩
  rintro ⟨execution, hexecution, hremoved⟩
  obtain ⟨i, hi⟩ := List.mem_iff_getElem?.mp hexecution
  have hlt : i < s.executions.length := (List.getElem?_eq_some_iff.mp hi).1
  exact (hredelivered i hlt execution hi).1 hremoved.live

theorem Sound.contained (hs : Sound s) : Contained s :=
  fun _ _ item hitem hinfected blob hblob hid => hs.infected item hitem hinfected blob hblob hid

/-- A URL is right unless the blob is in quarantine. -/
theorem presignGet_eq_iff (blob : Blob Id S) :
    presignGet blob.objectKey = (blob.bucket, blob.objectKey) ↔
      blob.storageClass ≠ .quarantine := by
  rw [presignGet, Blob.bucket]
  cases blob.storageClass with
  | standard => exact iff_of_true rfl (by rintro ⟨⟩)
  | quarantine => exact iff_of_false (by rintro ⟨⟩) fun h => h rfl

/-- Rows and objects are as good as they were. -/
structure Kept (s s' : State Id S) : Prop where
  known : ∀ old ∈ s.items, ∃ item ∈ s'.items, item.id = old.id
  items : ∀ item ∈ s'.items, (∃ old ∈ s.items, old.id = item.id ∧ old.blobId = item.blobId) ∨
    ∀ old ∈ s.items, old.id ≠ item.id
  blobs : ∀ old ∈ s.blobs, ∃ blob ∈ s'.blobs, blob.id = old.id ∧ blob.sha256 = old.sha256
  quarantine : ∀ key, (Bucket.quarantine, key) ∈ s.objects → (Bucket.quarantine, key) ∈ s'.objects
  out : ∀ blob ∈ s.blobs, s.Out blob.sha256 → s'.Out blob.sha256

/-- No row has changed. -/
theorem Kept.of_eq (hitems : s'.items = s.items) (hblobs : s'.blobs = s.blobs)
    (hquarantine : ∀ key, (Bucket.quarantine, key) ∈ s.objects →
      (Bucket.quarantine, key) ∈ s'.objects)
    (hout : ∀ blob ∈ s.blobs, s.Out blob.sha256 → s'.Out blob.sha256) : Kept s s' where
  known := by
    rw [hitems]
    exact fun item hitem => ⟨item, hitem, rfl⟩
  items := by
    rw [hitems]
    exact fun item hitem => .inl ⟨item, hitem, rfl, rfl⟩
  blobs := by
    rw [hblobs]
    exact fun blob hblob => ⟨blob, hblob, rfl, rfl⟩
  quarantine := hquarantine
  out := hout

theorem Snapshot.kept {item : Id} {blob : Blob Id S} {phase : Phase}
    (h : Snapshot s item blob phase) (hk : Kept s s') : Snapshot s' item blob phase where
  wellformed := h.wellformed
  row := by
    obtain ⟨row, hrow, hid, hsha⟩ := h.row
    obtain ⟨row', hrow', hid', hsha'⟩ := hk.blobs row hrow
    exact ⟨row', hrow', hid'.trans hid, hsha'.trans hsha⟩
  known := by
    obtain ⟨other, hother, rfl⟩ := h.known
    exact hk.known other hother
  blobId other hother hid := by
    obtain ⟨known, hknown, rfl⟩ := h.known
    rcases hk.items other hother with ⟨old, hold, hid', hblobId⟩ | hfresh
    · rw [← hblobId]
      exact h.blobId old hold (hid'.trans hid)
    · exact absurd hid.symm (hfresh known hknown)
  standard := h.standard
  copied hphase := hk.quarantine _ (h.copied hphase)
  out hphase := by
    obtain ⟨row, hrow, -, hsha⟩ := h.row
    rw [← hsha]
    exact hk.out row hrow (hsha ▸ h.out hphase)

theorem Execution.Sound.kept {execution : Execution Id S} (h : execution.Sound s)
    (hk : Kept s s') : execution.Sound s' := by
  unfold Execution.Sound at h ⊢
  split
  · exact Snapshot.kept h hk
  · obtain ⟨other, hother, rfl⟩ := h
    exact hk.known other hother
  · trivial

/-- The store refuses to delete it. -/
theorem Sound.refused (hs : Sound s) (sha256 : S) :
    Sound { s with refused := sha256 :: s.refused } := by
  have hout : ∀ other, s.Out other → { s with refused := sha256 :: s.refused }.Out other :=
    fun other h => h.imp_right (List.mem_cons_of_mem _)
  have hkept : Kept s { s with refused := sha256 :: s.refused } :=
    .of_eq rfl rfl (fun _ => id) fun blob _ => hout blob.sha256
  exact
    { hs with
      executions := fun execution hexecution => (hs.executions execution hexecution).kept hkept
      moved := fun blob hblob hclass => hout _ (hs.moved blob hblob hclass)
      infected := fun item hitem hstatus blob hblob hid =>
        (hs.infected item hitem hstatus blob hblob hid).imp_right (hout _) }

/-- An execution begins, or rows of something new are written. -/
theorem Kept.of_fresh {items : List (Item Id)} {blobs : List (Blob Id S)}
    {executions : List (Execution Id S)} {acquisitions : List S}
    (hfresh : ∀ item ∈ items, ∀ old ∈ s.items, old.id ≠ item.id) :
    Kept s { s with
      items := s.items ++ items
      blobs := s.blobs ++ blobs
      executions := executions
      acquisitions := acquisitions } where
  known old hold := ⟨old, List.mem_append_left _ hold, rfl⟩
  items item hitem := by
    rcases List.mem_append.mp hitem with hold | hnew
    · exact .inl ⟨item, hold, rfl, rfl⟩
    · exact .inr (hfresh item hnew)
  blobs old hold := ⟨old, List.mem_append_left _ hold, rfl, rfl⟩
  quarantine _ h := h
  out _ _ h := h

/-- The rows of a blob that is known are written: an item has it. -/
theorem Sound.recordItem (hs : Sound s) {item : Item Id} {acquisitions : List S}
    (hfresh : ∀ old ∈ s.items, old.id ≠ item.id) (hstatus : item.malwareStatus ≠ .infected)
    (hblob : ∀ blobId ∈ item.blobId, ∃ blob ∈ s.blobs, blob.id = blobId)
    (hacquisitions : ∀ sha256 ∈ acquisitions, sha256 ∈ s.acquisitions) :
    Sound { s with items := s.items ++ [item], acquisitions := acquisitions } where
  items one hone other hother heq := by
    rcases List.mem_append.mp hone with hone | hone <;>
      rcases List.mem_append.mp hother with hother | hother
    · exact hs.items one hone other hother heq
    · rw [List.mem_singleton.mp hother] at heq
      exact absurd heq (hfresh one hone)
    · rw [List.mem_singleton.mp hone] at heq
      exact absurd heq.symm (hfresh other hother)
    · rw [List.mem_singleton.mp hone, List.mem_singleton.mp hother]
  blobs := hs.blobs
  references other hother := by
    rcases List.mem_append.mp hother with hother | hother
    · exact hs.references other hother
    · obtain rfl := List.mem_singleton.mp hother
      exact hblob
  wellformed := hs.wellformed
  executions execution hexecution := by
    have hkept : Kept s { s with
        items := s.items ++ [item], blobs := s.blobs ++ [], acquisitions := acquisitions } :=
      .of_fresh fun new hnew => by
        rw [List.mem_singleton.mp hnew]
        exact hfresh
    rw [List.append_nil] at hkept
    exact (hs.executions execution hexecution).kept hkept
  named := hs.named
  moved := hs.moved
  infected other hother hinfected blob hblobMem hid := by
    rcases List.mem_append.mp hother with hother | hother
    · refine (hs.infected other hother hinfected blob hblobMem hid).imp_left ?_
      exact fun hspared => Places.exists_mem_append hspared [item]
    · rw [List.mem_singleton.mp hother] at hinfected
      exact absurd hinfected hstatus
  acquired sha256 hsha := hs.acquired sha256 (hacquisitions sha256 hsha)

/-- The row of a blob that is new is written. -/
theorem Sound.recordBlob (hs : Sound s) {blobId : Id} {sha256 : S}
    (hfresh : ∀ blob ∈ s.blobs, blob.id ≠ blobId) (hnew : ∀ blob ∈ s.blobs, blob.sha256 ≠ sha256)
    (hacquired : sha256 ∈ s.acquisitions) :
    Sound { s with blobs := s.blobs ++ [⟨blobId, sha256, .standard, .original sha256⟩] } where
  items := hs.items
  blobs one hone other hother := by
    rcases List.mem_append.mp hone with hone | hone <;>
      rcases List.mem_append.mp hother with hother | hother
    · exact hs.blobs one hone other hother
    · rw [List.mem_singleton.mp hother]
      exact iff_of_false (hfresh one hone) (hnew one hone)
    · rw [List.mem_singleton.mp hone]
      exact iff_of_false (hfresh other hother).symm (hnew other hother).symm
    · rw [List.mem_singleton.mp hone, List.mem_singleton.mp hother]
      exact iff_of_true rfl rfl
  references item hitem id hid := Places.exists_mem_append (hs.references item hitem id hid) _
  wellformed blob hblob := by
    rcases List.mem_append.mp hblob with hblob | hblob
    · exact hs.wellformed blob hblob
    · rw [List.mem_singleton.mp hblob]
      rfl
  executions execution hexecution := by
    have hkept : Kept s { s with
        items := s.items ++ []
        blobs := s.blobs ++ [⟨blobId, sha256, .standard, .original sha256⟩] } :=
      .of_fresh fun _ h => (List.not_mem_nil h).elim
    rw [List.append_nil] at hkept
    exact (hs.executions execution hexecution).kept hkept
  named blob hblob := by
    rcases List.mem_append.mp hblob with hblob | hblob
    · exact hs.named blob hblob
    · rw [List.mem_singleton.mp hblob]
      -- its object was promoted, and no blob had it whose original was deleted
      refine .inl ((hs.acquired sha256 hacquired).resolve_right ?_)
      rintro ⟨other, hother, heq⟩
      exact hnew other hother heq
  moved blob hblob hclass := by
    rcases List.mem_append.mp hblob with hblob | hblob
    · exact hs.moved blob hblob hclass
    · rw [List.mem_singleton.mp hblob] at hclass
      cases hclass
  infected item hitem hinfected blob hblob hid := by
    rcases List.mem_append.mp hblob with hblob | hblob
    · exact hs.infected item hitem hinfected blob hblob hid
    · rw [List.mem_singleton.mp hblob] at hid
      obtain ⟨other, hother, heq⟩ := hs.references item hitem blobId hid
      exact absurd heq (hfresh other hother)
  acquired other hother :=
    (hs.acquired other hother).imp_right fun h => Places.exists_mem_append h _

/-- The phase of an execution before anything is moved. -/
theorem Snapshot.early {item : Id} {blob : Blob Id S} {phase next : Phase}
    (h : Snapshot s item blob phase) (hstaged : next ≠ .staged) (hpromoted : next ≠ .promoted)
    (hremoved : next ≠ .removed) : Snapshot s item blob next where
  wellformed := h.wellformed
  row := h.row
  known := h.known
  blobId := h.blobId
  standard hnext := by
    rcases hnext with hnext | hnext | hnext
    · exact absurd hnext hstaged
    · exact absurd hnext hpromoted
    · exact absurd hnext hremoved
  copied hnext := by
    rcases hnext with hnext | hnext
    · exact absurd hnext hpromoted
    · exact absurd hnext hremoved
  out hnext := absurd hnext hremoved

/-- The row of a blob that was read has its digest. -/
theorem Snapshot.digest_eq (hs : Sound s) {item : Id} {blob : Blob Id S} {phase : Phase}
    (h : Snapshot s item blob phase) {row : Blob Id S} (hrow : row ∈ s.blobs)
    (hitem : ∃ other ∈ s.items, other.id = item ∧ other.blobId = some row.id) :
    row.id = blob.id ∧ row.sha256 = blob.sha256 := by
  obtain ⟨other, hother, hid, hblobId⟩ := hitem
  have hrowId : row.id = blob.id := by
    rw [h.blobId other hother hid] at hblobId
    exact (Option.some.inj hblobId).symm
  obtain ⟨known, hknown, hknownId, hsha⟩ := h.row
  exact ⟨hrowId, ((hs.blobs row hrow known hknown).mp (hrowId.trans hknownId.symm)).trans hsha⟩

variable [DecidableEq S]

/-- An execution goes on, and still accounts for the blob whose original it has deleted. -/
theorem Sound.setExecution (hs : Sound s) {i : ℕ} {old new : Execution Id S}
    (hi : s.executions[i]? = some old)
    (hremoved : ∀ blob ∈ s.blobs, old.Removed blob.id →
      new.Removed blob.id ∨ (blob.bucket, blob.objectKey) ∈ s.objects)
    (hnew : new.Sound s) : Sound (s.setExecution i new) where
  items := hs.items
  blobs := hs.blobs
  references := hs.references
  wellformed := hs.wellformed
  executions := Places.forall_mem_set (fun execution hexecution =>
    (hs.executions execution hexecution).kept (.of_eq rfl rfl (fun _ => id) fun _ _ => id))
    (hnew.kept (.of_eq rfl rfl (fun _ => id) fun _ _ => id))
  named blob hblob := by
    rcases hs.named blob hblob with hthere | hexists
    · exact .inl hthere
    · by_cases hthere : (blob.bucket, blob.objectKey) ∈ s.objects
      · exact .inl hthere
      · refine .inr (Places.exists_mem_set hi (fun hold => ?_) hexists)
        exact (hremoved blob hblob hold).resolve_right hthere
  moved := hs.moved
  infected := hs.infected
  acquired := hs.acquired

/-- Something is stored, and what is out stays out. -/
theorem Sound.put (hs : Sound s) (bucket : Bucket) (key : Key S)
    (hout : ∀ blob ∈ s.blobs, s.Out blob.sha256 → (s.put bucket key).Out blob.sha256) :
    Sound (s.put bucket key) := by
  have hgrows : ∀ object ∈ s.objects, object ∈ (s.put bucket key).objects := by
    intro object hobject
    rw [State.put]
    split
    · exact hobject
    · exact List.mem_cons_of_mem _ hobject
  have hkept : Kept s (s.put bucket key) := .of_eq rfl rfl (fun _ => hgrows _) hout
  exact
    { items := hs.items
      blobs := hs.blobs
      references := hs.references
      wellformed := hs.wellformed
      executions := fun execution hexecution => (hs.executions execution hexecution).kept hkept
      named := fun blob hblob => (hs.named blob hblob).imp_left (hgrows _)
      moved := fun blob hblob hclass => hout blob hblob (hs.moved blob hblob hclass)
      infected := fun item hitem hstatus blob hblob hid =>
        (hs.infected item hitem hstatus blob hblob hid).imp_right (hout blob hblob)
      acquired := fun sha256 hsha => (hs.acquired sha256 hsha).imp_left (hgrows _) }

/-- The original of a blob is deleted by an execution that has copied it. -/
theorem Sound.delete (hs : Sound s) {i : ℕ} {item : Id} {blob : Blob Id S}
    (hi : s.executions[i]? = some (.working item (some blob) .promoted)) :
    Sound ((s.deleteObject .evidence blob.objectKey).setExecution i
      (.working item (some blob) .removed)) := by
  have hsnapshot : Snapshot s item blob .promoted := hs.executions _ (List.mem_of_getElem? hi)
  have hkey := hsnapshot.wellformed.standard (hsnapshot.standard (.inr (.inl rfl)))
  obtain ⟨row, hrow, hid, hsha⟩ := hsnapshot.row
  let t := (s.deleteObject .evidence blob.objectKey).setExecution i
    (.working item (some blob) .removed)
  have hobjects : ∀ object, object ∈ t.objects ↔
      object ∈ s.objects ∧ object ≠ (.evidence, blob.objectKey) := by
    intro object
    exact List.mem_filter.trans (and_congr_right fun _ => decide_eq_true_iff)
  have hout : ∀ sha256, s.Out sha256 → t.Out sha256 :=
    fun sha256 h => h.imp_left fun hnot hmem => hnot ((hobjects _).mp hmem).1
  have hgone : t.Out blob.sha256 := by
    refine .inl fun hmem => ((hobjects _).mp hmem).2 ?_
    rw [hkey]
  have hkept : Kept s t := .of_eq rfl rfl
    (fun key hkeyMem => (hobjects _).mpr ⟨hkeyMem, by rintro ⟨⟩⟩) fun row _ => hout row.sha256
  have hnew : Snapshot t item blob .removed :=
    { hsnapshot.kept hkept with
      standard := fun _ => hsnapshot.standard (.inr (.inl rfl))
      copied := fun _ => (hsnapshot.kept hkept).copied (.inl rfl)
      out := fun _ => hgone }
  exact
    { items := hs.items
      blobs := hs.blobs
      references := hs.references
      wellformed := hs.wellformed
      executions := Places.forall_mem_set (fun execution hexecution =>
        (hs.executions execution hexecution).kept hkept) hnew
      named := fun other hother => by
        have hlt : i < s.executions.length := (List.getElem?_eq_some_iff.mp hi).1
        rcases hs.named other hother with hthere | hexists
        · by_cases hsame : (other.bucket, other.objectKey) = (.evidence, blob.objectKey)
          · -- it was the object of this row, and the execution accounts for it
            refine .inr ⟨_, List.mem_set hlt _, ?_⟩
            obtain ⟨-, hkeys⟩ := Prod.mk.inj hsame
            have hshas : other.sha256 = row.sha256 := by
              rw [← (hs.wellformed other hother).digest, hkeys, hsnapshot.wellformed.digest, hsha]
            exact hid.symm.trans ((hs.blobs other hother row hrow).mpr hshas).symm
          · exact .inl ((hobjects _).mpr ⟨hthere, hsame⟩)
        · exact .inr (Places.exists_mem_set hi (fun h => h.elim) hexists)
      moved := fun other hother hclass => hout _ (hs.moved other hother hclass)
      infected := fun other hother hstatus blob hblob hid =>
        (hs.infected other hother hstatus blob hblob hid).imp_right (hout _)
      acquired := fun sha256 hacquired => by
        rcases hs.acquired sha256 hacquired with hthere | hexists
        · by_cases hsame : blob.sha256 = sha256
          · exact .inr ⟨row, hrow, hsha.trans hsame⟩
          · refine .inl ((hobjects _).mpr ⟨hthere, fun heq => hsame ?_⟩)
            rw [hkey] at heq
            cases heq
            rfl
        · exact .inr hexists }

variable [DecidableEq Id]

omit [DecidableEq S] in
/-- A status is set, and an infected item is spared or its bytes are out. -/
theorem Sound.setStatus (hs : Sound s) {id : Id} {status : MalwareStatus}
    {scan : Option ScanResult} (hinfected : status = .infected → ∀ blob ∈ s.blobs,
      (∃ item ∈ s.items, item.id = id ∧ item.blobId = some blob.id) →
        s.Spared id blob.id ∨ s.Out blob.sha256) :
    Sound (s.setStatus id status scan) := by
  let f : Item Id → Item Id := fun other =>
    if other.id = id then { other with malwareStatus := status, scan := scan.or other.scan }
    else other
  have hid : ∀ item, (f item).id = item.id ∧ (f item).blobId = item.blobId := by
    intro item
    by_cases hitem : item.id = id
    · simp only [f, hitem, if_true, and_self]
    · simp only [f, hitem, if_false, and_self]
  have hother : ∀ item : Item Id, item.id ≠ id → f item = item := fun item hne => if_neg hne
  have hkept : Kept s (s.setStatus id status scan) := by
    refine ⟨fun old hold => ⟨f old, List.mem_map_of_mem hold, (hid old).1⟩, fun item hitem => ?_,
      fun blob hblob => ⟨blob, hblob, rfl, rfl⟩, fun _ h => h, fun _ _ h => h⟩
    obtain ⟨old, hold, rfl⟩ := List.mem_map.mp hitem
    exact .inl ⟨old, hold, (hid old).1.symm, (hid old).2.symm⟩
  -- whoever else spares a blob still does
  have hspared : ∀ item blobId, (∃ other ∈ s.items, other.id ≠ item ∧ other.id ≠ id ∧
      other.blobId = some blobId ∧ other.malwareStatus ≠ .infected) →
        (s.setStatus id status scan).Spared item blobId := by
    rintro item blobId ⟨other, hmem, hne, hneId, hblobId, hclean⟩
    refine ⟨other, List.mem_map.mpr ⟨other, hmem, hother other hneId⟩, hne, hblobId, hclean⟩
  refine ⟨?_, hs.blobs, ?_, hs.wellformed, fun execution hexecution =>
    (hs.executions execution hexecution).kept hkept, hs.named, hs.moved, ?_, hs.acquired⟩
  · intro item hitem other hmem heq
    obtain ⟨old, hold, rfl⟩ := List.mem_map.mp hitem
    obtain ⟨old', hold', rfl⟩ := List.mem_map.mp hmem
    rw [(hid old).1, (hid old').1] at heq
    rw [hs.items old hold old' hold' heq]
  · intro item hitem blobId hblobId
    obtain ⟨old, hold, rfl⟩ := List.mem_map.mp hitem
    exact hs.references old hold blobId ((hid old).2 ▸ hblobId)
  · intro item hitem hstatus blob hblob hblobId
    obtain ⟨old, hold, rfl⟩ := List.mem_map.mp hitem
    rw [(hid old).1]
    rw [(hid old).2] at hblobId
    by_cases hold' : old.id = id
    · have hset : status = .infected := by
        simpa only [f, hold', if_true] using hstatus
      refine (hinfected hset blob hblob ⟨old, hold, hold', hblobId⟩).imp ?_ fun h => h
      rintro ⟨other, hmem, hne, hother, hclean⟩
      exact hspared _ _ ⟨other, hmem, hold' ▸ hne, hne, hother, hclean⟩
    · have hstatus : (f old).malwareStatus = .infected := hstatus
      rw [hother old hold'] at hstatus
      rcases hs.infected old hold hstatus blob hblob hblobId with hsp | hout
      · obtain ⟨other, hmem, hne, hotherId, hclean⟩ := hsp
        by_cases hsame : other.id = id
        · by_cases hset : status = .infected
          · -- whoever spared the other item spares this one, which is infected itself
            refine (hinfected hset blob hblob ⟨other, hmem, hsame, hotherId⟩).imp ?_ fun h => h
            rintro ⟨third, hthird, hneThird, hthirdId, hcleanThird⟩
            refine hspared _ _ ⟨third, hthird, fun heq => ?_, hneThird, hthirdId, hcleanThird⟩
            rw [hs.items third hthird old hold heq] at hcleanThird
            exact hcleanThird hstatus
          · refine .inl ⟨f other, List.mem_map_of_mem hmem, ?_, ?_, ?_⟩
            · rw [(hid other).1]
              exact hne
            · rw [(hid other).2]
              exact hotherId
            · simpa only [f, hsame, if_true] using hset
        · exact .inl (hspared _ _ ⟨other, hmem, hne, hsame, hotherId, hclean⟩)
      · exact .inr hout

omit [DecidableEq S] in
/-- An execution begins with what it has read. -/
theorem Sound.deliver (hs : Sound s) {item : Item Id} (hitem : item ∈ s.items) :
    Sound { s with executions := s.executions ++ [.working item.id (s.blobOf item) .read] } := by
  have hread : (Execution.working item.id (s.blobOf item) .read).Sound s := by
    cases hblob : s.blobOf item with
    | none => exact ⟨item, hitem, rfl⟩
    | some blob =>
      obtain ⟨blobId, hblobId, hfind⟩ := Option.bind_eq_some_iff.mp hblob
      have hmem := List.mem_of_find?_eq_some hfind
      have hid : blob.id = blobId := by
        simpa only [decide_eq_true_eq] using List.find?_some hfind
      exact
        { wellformed := hs.wellformed blob hmem
          row := ⟨blob, hmem, rfl, rfl⟩
          known := ⟨item, hitem, rfl⟩
          blobId := fun other hother heq => by
            rw [hs.items other hother item hitem heq, hblobId, hid]
          standard := by rintro (h | h | h) <;> cases h
          copied := by rintro (h | h) <;> cases h
          out := by rintro ⟨⟩ }
  exact
    { hs with
      executions := fun execution hexecution => by
        rcases List.mem_append.mp hexecution with hold | hnew
        · exact (hs.executions execution hold).kept (.of_eq rfl rfl (fun _ => id) fun _ _ => id)
        · rw [List.mem_singleton.mp hnew]
          exact hread.kept (.of_eq rfl rfl (fun _ => id) fun _ _ => id)
      named := fun blob hblob =>
        (hs.named blob hblob).imp_right fun h => Places.exists_mem_append h _ }

omit [DecidableEq S] in
/-- The row of the blob says where it was moved. -/
theorem Sound.moveBlob (hs : Sound s) {i : ℕ} {item : Id} {blob : Blob Id S}
    (hi : s.executions[i]? = some (.working item (some blob) .removed)) :
    Sound ((s.moveBlob blob).setExecution i (.ended item)) := by
  have hsnapshot : Snapshot s item blob .removed := hs.executions _ (List.mem_of_getElem? hi)
  have hcopied := hsnapshot.copied (.inr rfl)
  obtain ⟨row, hrow, hid, hsha⟩ := hsnapshot.row
  -- the row that is moved has the digest of what was copied
  have hdigest : ∀ old ∈ s.blobs, old.id = blob.id → old.sha256 = blob.sha256 :=
    fun old hold heq => ((hs.blobs old hold row hrow).mp (heq.trans hid.symm)).trans hsha
  let f : Blob Id S → Blob Id S := fun row =>
    if row.id = blob.id then
      { row with storageClass := .quarantine, objectKey := .quarantine blob.sha256 }
    else row
  have hsame : ∀ old, (f old).id = old.id ∧ (f old).sha256 = old.sha256 := by
    intro old
    by_cases heq : old.id = blob.id
    · simp only [f, heq, if_true, and_self]
    · simp only [f, heq, if_false, and_self]
  have hother : ∀ old : Blob Id S, old.id ≠ blob.id → f old = old := fun old hne => if_neg hne
  have hmoved : ∀ old, old.id = blob.id → f old =
      { old with storageClass := .quarantine, objectKey := .quarantine blob.sha256 } :=
    fun old heq => if_pos heq
  let t := (s.moveBlob blob).setExecution i (.ended item)
  have hrows : ∀ row ∈ t.blobs, ∃ old ∈ s.blobs, f old = row := fun _ => List.mem_map.mp
  have hkept : Kept s t :=
    { known := fun old hold => ⟨old, hold, rfl⟩
      items := fun other hmem => .inl ⟨other, hmem, rfl, rfl⟩
      blobs := fun old hold => ⟨f old, List.mem_map_of_mem hold, hsame old⟩
      quarantine := fun _ h => h
      out := fun _ _ h => h }
  exact
    { items := hs.items
      blobs := fun one hone other hmem => by
        obtain ⟨old, hold, rfl⟩ := hrows _ hone
        obtain ⟨old', hold', rfl⟩ := hrows _ hmem
        rw [(hsame old).1, (hsame old').1, (hsame old).2, (hsame old').2]
        exact hs.blobs old hold old' hold'
      references := fun other hmem blobId hblobId => by
        obtain ⟨old, hold, heq⟩ := hs.references other hmem blobId hblobId
        exact ⟨f old, List.mem_map_of_mem hold, (hsame old).1.trans heq⟩
      wellformed := fun other hmem => by
        obtain ⟨old, hold, rfl⟩ := hrows _ hmem
        by_cases heq : old.id = blob.id
        · rw [hmoved old heq, Blob.Wellformed, hdigest old hold heq]
        · rw [hother old heq]
          exact hs.wellformed old hold
      executions := Places.forall_mem_set (fun execution hexecution =>
        (hs.executions execution hexecution).kept hkept) trivial
      named := fun other hmem => by
        obtain ⟨old, hold, rfl⟩ := hrows _ hmem
        by_cases heq : old.id = blob.id
        · rw [hmoved old heq]
          exact .inl hcopied
        · rw [hother old heq]
          exact (hs.named old hold).imp_right
            (Places.exists_mem_set hi fun h => absurd h.symm heq)
      moved := fun other hmem hclass => by
        obtain ⟨old, hold, rfl⟩ := hrows _ hmem
        rw [(hsame old).2]
        by_cases heq : old.id = blob.id
        · rw [hdigest old hold heq]
          exact hsnapshot.out rfl
        · rw [hother old heq] at hclass
          exact hs.moved old hold hclass
      infected := fun other hotherMem hstatus row hmem hblobId => by
        obtain ⟨old, hold, rfl⟩ := hrows _ hmem
        rw [(hsame old).1] at hblobId ⊢
        rw [(hsame old).2]
        exact hs.infected other hotherMem hstatus old hold hblobId
      acquired := fun sha256 hacquired => by
        refine (hs.acquired sha256 hacquired).imp_right ?_
        rintro ⟨old, hold, heq⟩
        exact ⟨f old, List.mem_map_of_mem hold, (hsame old).2.trans heq⟩ }

/-- An execution that deleted nothing comes to its end. -/
theorem Sound.end (hs : Sound s) {i : ℕ} {item : Id} {blob : Option (Blob Id S)} {phase : Phase}
    (hi : s.executions[i]? = some (.working item blob phase)) (hphase : phase ≠ .removed)
    {status : MalwareStatus} {scan : Option ScanResult}
    (hinfected : status = .infected → ∀ row ∈ s.blobs,
      (∃ other ∈ s.items, other.id = item ∧ other.blobId = some row.id) →
        s.Spared item row.id ∨ s.Out row.sha256) :
    Sound ((s.setStatus item status scan).setExecution i (.ended item)) := by
  refine Sound.setExecution (hs.setStatus hinfected) (by exact hi) (fun row _ hremoved => ?_)
    trivial
  unfold Execution.Removed at hremoved
  split at hremoved
  next heq =>
    cases heq
    exact absurd rfl hphase
  next => exact hremoved.elim

theorem sound_scanned (hs : Sound s) {i : ℕ} {item : Id} {blob : Option (Blob Id S)}
    {verdict : Verdict} (hi : s.executions[i]? = some (.working item blob .read))
    (h : scanned s i item blob verdict = some s') : Sound s' := by
  cases verdict with
  | failed =>
    cases h
    exact hs.end hi (by rintro ⟨⟩) (by rintro ⟨⟩)
  | clean | missing =>
    obtain ⟨-, h⟩ := Option.ite_none_right_eq_some.mp h
    cases h
    exact hs.end hi (by rintro ⟨⟩) (by rintro ⟨⟩)
  | infected =>
    obtain ⟨hblob, h⟩ := Option.ite_none_right_eq_some.mp h
    cases h
    obtain ⟨blob, rfl, -⟩ := hblob
    have hsnapshot : Snapshot s item blob .read := hs.executions _ (List.mem_of_getElem? hi)
    exact hs.setExecution hi (fun _ _ h => h.elim)
      (hsnapshot.early (by rintro ⟨⟩) (by rintro ⟨⟩) (by rintro ⟨⟩))

theorem sound_treat (hs : Sound s) {i : ℕ} {item : Id} {blob : Blob Id S} {phase : Phase}
    (hi : s.executions[i]? = some (.working item (some blob) phase))
    (hcareful : NextCareful s (.working item (some blob) phase))
    (h : treat s i item blob phase = some s') : Sound s' := by
  have hsnapshot : Snapshot s item blob phase := hs.executions _ (List.mem_of_getElem? hi)
  cases phase with
  | read => cases h
  | infected =>
    cases h
    exact hs.setExecution hi (fun _ _ h => h.elim)
      (hsnapshot.early (by rintro ⟨⟩) (by rintro ⟨⟩) (by rintro ⟨⟩))
  | counted sharedCount =>
    rw [treat] at h
    split at h
    next hmoves =>
      split at h
      · cases h
        refine hs.setExecution hi (fun _ _ h => h.elim) { hsnapshot with
          standard := fun _ => ?_
          copied := by rintro (h | h) <;> cases h
          out := by rintro ⟨⟩ }
        cases hclass : blob.storageClass with
        | standard => rfl
        | quarantine => exact absurd hclass hmoves.2
      · cases h
        exact hs.setExecution hi (fun _ _ h => h.elim) trivial
    next hstays =>
      cases h
      refine hs.end hi (by rintro ⟨⟩) fun _ row hrow hitem => ?_
      obtain ⟨hid, hsha⟩ := hsnapshot.digest_eq hs hrow hitem
      rw [hid, hsha]
      exact hcareful hstays
  | staged =>
    cases h
    have hkey := hsnapshot.wellformed.digest
    have hs' : Sound (s.put .quarantine (.quarantine blob.objectKey.digest)) := by
      refine hs.put _ _ fun row _ hout => hout.imp_left fun hnot hmem => hnot ?_
      rw [State.put] at hmem
      split at hmem
      · exact hmem
      · rcases List.mem_cons.mp hmem with heq | hmem
        · cases heq
        · exact hmem
    refine hs'.setExecution hi (fun _ _ h => False.elim h) { hs'.executions _
      (List.mem_of_getElem? hi) with
        standard := fun _ => hsnapshot.standard (.inl rfl)
        copied := fun _ => ?_
        out := by rintro ⟨⟩ }
    rw [hkey]
    exact s.mem_put
  | promoted =>
    cases h
    exact hs.delete hi
  | removed =>
    cases h
    have hs' : Sound (s.finish item .infected) := by
      refine hs.setStatus fun _ row hrow hitem => .inr ?_
      obtain ⟨-, hsha⟩ := hsnapshot.digest_eq hs hrow hitem
      rw [hsha]
      exact hsnapshot.out rfl
    exact hs'.moveBlob hi

/-- **A careful event leaves what is sound sound.** -/
theorem sound_step {e : Event Id S} (hs : Sound s) (hcareful : Careful s e)
    (h : step s e = some s') : Sound s' := by
  cases e with
  | deliver id =>
    rw [step] at h
    split at h
    next item hfind =>
      split at h
      · cases h
        exact hs
      · cases h
        exact hs.deliver (List.mem_of_find?_eq_some hfind)
    next =>
      cases h
      exact hs
  | scan i verdict =>
    rw [step] at h
    split at h
    next hi => exact sound_scanned hs hi h
    next => cases h
  | next i =>
    rw [step] at h
    split at h
    next hi => exact sound_treat hs hi (hcareful _ hi) h
    next => cases h
  | refuse i =>
    rw [step] at h
    split at h
    next item blob hi =>
      cases h
      have hsnapshot : Snapshot s item blob .promoted := hs.executions _ (List.mem_of_getElem? hi)
      have hs' := hs.refused blob.objectKey.digest
      refine hs'.setExecution hi (fun _ _ h => h.elim) { hs'.executions _
        (List.mem_of_getElem? hi) with
          standard := fun _ => hsnapshot.standard (.inr (.inl rfl))
          copied := fun _ => hsnapshot.copied (.inl rfl)
          out := fun _ => .inr ?_ }
      rw [hsnapshot.wellformed.digest]
      exact List.mem_cons_self
    next => cases h
  | kill i =>
    rw [step] at h
    split at h
    next item blob phase hi =>
      cases h
      refine hs.setExecution hi (fun row hrow hremoved => .inr ?_) trivial
      unfold Execution.Removed at hremoved
      split at hremoved
      next heq =>
        cases heq
        exact (hcareful _ hi row hrow hremoved.symm).1
      next => exact hremoved.elim
    next => cases h
  | promote sha256 =>
    cases h
    have hs' : Sound (s.put .evidence (.original sha256)) := by
      refine hs.put _ _ fun blob hblob hout => hout.imp_left fun hnot hmem => hnot ?_
      rw [State.put] at hmem
      split at hmem
      · exact hmem
      next hnew =>
        rcases List.mem_cons.mp hmem with heq | hmem
        · cases heq
          exact absurd rfl (hcareful.resolve_left hnew blob hblob)
        · exact hmem
    exact
      { hs' with
        executions := fun execution hexecution =>
          (hs'.executions execution hexecution).kept (.of_eq rfl rfl (fun _ => id) fun _ _ => id)
        acquired := fun other hother => by
          rcases List.mem_append.mp hother with hother | hother
          · exact hs'.acquired other hother
          · rw [List.mem_singleton.mp hother]
            exact .inl s.mem_put }
  | record i item blobId =>
    rw [step] at h
    obtain ⟨sha256, hsha, h⟩ := Option.bind_eq_some_iff.mp h
    obtain ⟨⟨hitem, hblobId⟩, h⟩ := Option.ite_none_right_eq_some.mp h
    have hacquisitions : ∀ other ∈ s.acquisitions.eraseIdx i, other ∈ s.acquisitions :=
      fun other => List.mem_of_mem_eraseIdx
    cases hfound : s.blobs.find? fun blob => blob.sha256 = sha256 with
    | some blob =>
      simp only [hfound, Option.isSome_some, if_true, Option.map_some, Option.getD_some] at h
      cases h
      refine hs.recordItem hitem (by rintro ⟨⟩) ?_ hacquisitions
      rintro _ ⟨⟩
      exact ⟨blob, List.mem_of_find?_eq_some hfound, rfl⟩
    | none =>
      simp only [hfound, Option.isSome_none, Bool.false_eq_true, if_false, Option.map_none,
        Option.getD_none] at h
      cases h
      have hnew : ∀ blob ∈ s.blobs, blob.sha256 ≠ sha256 := by
        simpa only [decide_eq_true_eq] using List.find?_eq_none.mp hfound
      have hs' := hs.recordBlob hblobId hnew (List.mem_of_getElem? hsha)
      refine hs'.recordItem hitem (by rintro ⟨⟩) ?_ hacquisitions
      rintro _ ⟨⟩
      exact ⟨_, List.mem_append_right _ List.mem_cons_self, rfl⟩

/-! ## Runs -/

/-- Nothing was scanned yet: every item has its blob where it was promoted. -/
structure Initial (s : State Id S) : Prop where
  items : ∀ item ∈ s.items, ∀ other ∈ s.items, item.id = other.id → item = other
  blobs : ∀ blob ∈ s.blobs, ∀ other ∈ s.blobs, blob.id = other.id ↔ blob.sha256 = other.sha256
  references : ∀ item ∈ s.items, ∀ blobId ∈ item.blobId, ∃ blob ∈ s.blobs, blob.id = blobId
  original : ∀ blob ∈ s.blobs, blob.storageClass = .standard ∧
    blob.objectKey = .original blob.sha256 ∧ (Bucket.evidence, Key.original blob.sha256) ∈ s.objects
  unscanned : ∀ item ∈ s.items, item.malwareStatus ≠ .infected
  executions : s.executions = []
  acquisitions : s.acquisitions = []

omit [DecidableEq S] [DecidableEq Id] in
theorem Initial.sound (hs : Initial s) : Sound s where
  items := hs.items
  blobs := hs.blobs
  references := hs.references
  wellformed blob hblob := by
    obtain ⟨hclass, hkey, -⟩ := hs.original blob hblob
    rw [Blob.Wellformed, hclass, hkey]
  executions execution hexecution := by
    rw [hs.executions] at hexecution
    exact (List.not_mem_nil hexecution).elim
  named blob hblob := by
    obtain ⟨hclass, hkey, hmem⟩ := hs.original blob hblob
    rw [Blob.bucket, hclass, hkey]
    exact .inl hmem
  moved blob hblob hclass := by
    rw [(hs.original blob hblob).1] at hclass
    cases hclass
  infected item hitem hinfected := absurd hinfected (hs.unscanned item hitem)
  acquired sha256 hsha := by
    rw [hs.acquisitions] at hsha
    exact (List.not_mem_nil hsha).elim

/-- **A careful run strands and leaks no bytes**, but the URL of a blob is right only while it is
not in quarantine. -/
theorem contained_and_whole_iff {t : State Id S} {es : List (Event Id S)} (hs : Initial s)
    (hcareful : Always step Careful s es) (h : run step s es = some t) :
    Stored t ∧ Contained t ∧ (Whole t ↔ ∀ blob ∈ t.blobs, blob.storageClass ≠ .quarantine) := by
  have ht : Sound t := Always.run_induction (fun _ _ _ => sound_step) hs.sound hcareful h
  refine ⟨ht.stored, ht.contained, fun hwhole blob hblob => ?_, fun hclass => ?_⟩
  · exact (presignGet_eq_iff blob).mp (hwhole.presigned blob hblob)
  · exact ⟨ht.stored, fun blob hblob => (presignGet_eq_iff blob).mpr (hclass blob hblob),
      ht.contained⟩

end Steps

/-! ## Careless runs -/

/-- An item, and perhaps a second one with the same bytes. -/
def twin (second : List ℕ) : State ℕ ℕ where
  items := (0 :: second).map fun id => ⟨id, some 0, .notScanned, none⟩
  blobs := [⟨0, 7, .standard, .original 7⟩]
  objects := [(.evidence, .original 7)]
  executions := []
  acquisitions := []
  refused := []

theorem twin_initial (second : List ℕ) : Initial (twin second) where
  items item hitem other hother heq := by
    obtain ⟨id, -, rfl⟩ := List.mem_map.mp hitem
    obtain ⟨id', -, rfl⟩ := List.mem_map.mp hother
    obtain rfl : id = id' := heq
    rfl
  blobs blob hblob other hother := by
    rw [List.mem_singleton.mp hblob, List.mem_singleton.mp hother]
    exact iff_of_true rfl rfl
  references item hitem blobId hblobId := by
    obtain ⟨id, -, rfl⟩ := List.mem_map.mp hitem
    cases hblobId
    exact ⟨_, List.mem_cons_self, rfl⟩
  original blob hblob := by
    rw [List.mem_singleton.mp hblob]
    exact ⟨rfl, rfl, List.mem_cons_self⟩
  unscanned item hitem := by
    obtain ⟨id, -, rfl⟩ := List.mem_map.mp hitem
    rintro ⟨⟩
  executions := rfl
  acquisitions := rfl

/-- An item is scanned, and found infected. -/
def infection (item i : ℕ) : List (Event ℕ ℕ) :=
  [.deliver item, .scan i .infected, .next i, .next i]

/-- The bytes are moved, and the row updated. -/
def move (i : ℕ) : List (Event ℕ ℕ) := [.next i, .next i, .next i]

/-- The URL of what is in quarantine is wrong; an execution that is killed once the original is
deleted strands the bytes; and they are back when they are acquired again, or were never moved when
two items have them that are both infected. -/
theorem not_whole :
    (∃ t, run step (twin []) (infection 0 0 ++ move 0) = some t ∧ Initial (twin []) ∧
      ¬ ∀ blob ∈ t.blobs, presignGet blob.objectKey = (blob.bucket, blob.objectKey)) ∧
    (∃ t, run step (twin []) (infection 0 0 ++
        [.next 0, .next 0, .kill 0, .deliver 0, .scan 1 .missing]) = some t ∧ ¬ Stored t) ∧
    (∃ t, run step (twin []) (infection 0 0 ++ move 0 ++
        [.promote 7, .record 0 1 5] ++ infection 1 1) = some t ∧ ¬ Contained t) ∧
    ∃ t, run step (twin [1]) (infection 0 0 ++ infection 1 1) = some t ∧ Initial (twin [1]) ∧
      ¬ Contained t := by
  refine ⟨⟨_, rfl, twin_initial _, by decide⟩, ⟨_, rfl, fun h => ?_⟩, ⟨_, rfl, fun h => ?_⟩,
    ⟨_, rfl, twin_initial _, fun h => ?_⟩⟩
  · exact absurd (h (by decide) _ List.mem_cons_self _ List.mem_cons_self rfl) (by decide)
  · exact absurd (h (by decide) rfl _ List.mem_cons_self rfl _ List.mem_cons_self rfl) (by decide)
  · exact absurd (h (by decide) rfl _ List.mem_cons_self rfl _ List.mem_cons_self rfl) (by decide)

/-- An infected item whose bytes are moved, while they are not asked for. -/
theorem contained_moved : ∃ t, run step (twin []) (infection 0 0 ++ move 0) = some t ∧
    Stored t ∧ Contained t ∧ (Whole t ↔ ∀ blob ∈ t.blobs, blob.storageClass ≠ .quarantine) := by
  have hcareful : Always step Careful (twin []) (infection 0 0 ++ move 0) := by decide +kernel
  exact ⟨_, rfl, contained_and_whole_iff (twin_initial []) hcareful rfl⟩

end AegCloudDfir.Processing.Quarantine
