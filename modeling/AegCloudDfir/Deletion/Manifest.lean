import AegCloudDfir.Deletion.Runs
import AegCloudDfir.Js.Text

/-!
# The deletion manifest

Whatever an execution of `deletionRun` does with an item goes into a list in memory. The list is
stored as the manifest of the request when all items have been treated, and only then is the request
executed. Another delivery finds the request as it was, and reads its items again: those whose rows
are gone are no longer among them.

Here a request is looked at on its own, with one execution of it at a time; holds, references and
acquisitions change at any time. What happens to the objects in the store is in `Deletion.Runs`.

* `step` — the tables, the stored manifest and the execution under way.
* `Complete` — what the manifest says and what has happened go together.
* `complete_of_covered` — what an execution must not do for that.
-/

namespace AegCloudDfir.Deletion.Manifests

open Transition

variable {Id : Type}

/-! ## Tables -/

/-- A row of `evidence_items`, with what the manifest says of it. -/
structure Row (Id : Type) extends Item Id where
  name : JsString
  sha256 : JsString
  deriving DecidableEq

/-- What has become of an item. -/
inductive Outcome : Type where
  | blockedByLegalHold
  | objectAndMetadataDeleted
  | metadataDeletedBlobRetainedShared
  | blockedByObjectLockOrStorage
  deriving DecidableEq

/-- `outcome.startsWith('blocked')` -/
def Outcome.blocked : Outcome → Bool
  | .blockedByLegalHold | .blockedByObjectLockOrStorage => true
  | .objectAndMetadataDeleted | .metadataDeletedBlobRetainedShared => false

/-- An entry of the manifest. -/
structure Entry (Id : Type) where
  evidenceItemId : Id
  name : JsString
  sha256 : JsString
  outcome : Outcome
  detail : Option JsString
  deriving DecidableEq

/-- `totals` of a manifest. -/
structure Totals where
  targeted : ℕ
  deleted : ℕ
  metadataOnly : ℕ
  blocked : ℕ
  deriving DecidableEq

/-- A deletion manifest. -/
structure Manifest (Id : Type) where
  deletionRequestId : Id
  totals : Totals
  entries : List (Entry Id)
  deriving DecidableEq

/-- How far an execution is with the first of its items. -/
inductive Phase (Id : Type) : Type where
  | idle
  /-- no other item has the blob -/
  | counted (blobId : Id)
  /-- the blob was read -/
  | found
  /-- the rows are to be deleted; whether the object was -/
  | removing (objectDeleted : Bool)
  deriving DecidableEq

/-- An execution of the job. -/
inductive Execution (Id : Type) : Type where
  /-- the request is approved -/
  | approved
  /-- with the number of its items, the entries so far, and the items that are left -/
  | working (targeted : ℕ) (entries : List (Entry Id)) (rest : List (Row Id)) (phase : Phase Id)
  /-- the manifest is stored -/
  | put (manifest : Manifest Id)
  deriving DecidableEq

/-- The entries an execution has. -/
def Execution.entries : Execution Id → List (Entry Id)
  | .approved => []
  | .working _ entries _ _ => entries
  | .put manifest => manifest.entries

/-- The database, the manifest in the store, the execution under way, and what there was. -/
structure State (Id : Type) where
  request : DeletionRequest Id
  rows : List (Row Id)
  blobs : List Id
  /-- the cases under legal hold -/
  held : List Id
  /-- rows of `case_items`: a case and an item -/
  caseItems : List (Id × Id)
  /-- the items with a row in `export_items`, `production_items` or `forensic_imports` -/
  references : List Id
  stored : Option (Manifest Id)
  execution : Option (Execution Id)
  /-- the items of the first execution -/
  firstTargets : Option (List Id)
  /-- the items whose rows the executions have deleted -/
  removed : List Id

namespace State

variable (s : State Id)

/-- The item is in a case under legal hold. -/
def Held (item : Id) : Prop := ∃ c ∈ s.held, (c, item) ∈ s.caseItems

/-- The row of the item is there and can be deleted. -/
def Removable (item : Id) : Prop :=
  (∃ row ∈ s.rows, row.id = item) ∧ (∀ c ∈ s.caseItems, c.2 ≠ item) ∧ item ∉ s.references

/-- The stored manifest names the item. -/
def Named (item : Id) : Prop :=
  ∃ manifest ∈ s.stored, ∃ entry ∈ manifest.entries, entry.evidenceItemId = item

variable [DecidableEq Id]

instance (item : Id) : Decidable (s.Held item) := inferInstanceAs (Decidable (∃ c ∈ s.held, _))

instance (item : Id) : Decidable (s.Removable item) := inferInstanceAs (Decidable (_ ∧ _ ∧ _))

instance (item : Id) : Decidable (s.Named item) :=
  inferInstanceAs (Decidable (∃ manifest ∈ s.stored, _))

/-- `targets` -/
def targets : List (Row Id) := s.rows.filter fun row => s.request.scope.covers row.toItem

/-- `sharedCount` -/
def sharedCount (blobId item : Id) : ℕ :=
  s.rows.countP fun other => other.blobId = some blobId ∧ other.id ≠ item

/-- The transaction that deletes the rows of an item; a deleted blob leaves other items without
one. -/
def deleteRows (target : Row Id) (objectDeleted : Bool) : State Id :=
  let rows := s.rows.filter fun other => other.id ≠ target.id
  match target.blobId with
  | some blobId =>
    if objectDeleted then
      { s with
        blobs := s.blobs.filter fun other => other ≠ blobId
        rows := rows.map fun row =>
          if row.blobId = some blobId then { row with blobId := none } else row
        removed := s.removed ++ [target.id] }
    else { s with rows := rows, removed := s.removed ++ [target.id] }
  | none => { s with rows := rows, removed := s.removed ++ [target.id] }

end State

/-! ## What can happen -/

/-- An entry for an item. -/
def Row.entry (row : Row Id) (outcome : Outcome) (detail : Option JsString) : Entry Id :=
  ⟨row.id, row.name, row.sha256, outcome, detail⟩

@[simp] theorem Row.entry_evidenceItemId (row : Row Id) (outcome : Outcome)
    (detail : Option JsString) : (row.entry outcome detail).evidenceItemId = row.id := rfl

/-- The manifest of an execution that has treated all its items. -/
def manifestOf (request : Id) (targeted : ℕ) (entries : List (Entry Id)) : Manifest Id where
  deletionRequestId := request
  totals :=
    { targeted := targeted
      deleted := entries.countP fun e => e.outcome = .objectAndMetadataDeleted
      metadataOnly := entries.countP fun e => e.outcome = .metadataDeletedBlobRetainedShared
      blocked := entries.countP fun e => e.outcome.blocked }
  entries := entries

/-- What can happen next. -/
inductive Event (Id : Type) : Type where
  /-- the job is delivered, when no execution is under way -/
  | deliver
  /-- the execution reads its items -/
  | resolve
  /-- it does what comes next -/
  | next
  /-- the store refuses to delete the object -/
  | refuse (error : JsString)
  /-- the worker is killed, or a call fails for another reason -/
  | kill
  | setHold (c : Id) (enabled : Bool)
  | addToCase (c item : Id)
  /-- an item is exported, produced, or the source of an import -/
  | refer (item : Id)
  /-- an item is acquired, with a blob of its own or with another item's -/
  | record (row : Row Id)
  deriving DecidableEq

section Steps

variable [DecidableEq Id]

/-- The first transaction of `deletionRun`. -/
def deliver (s : State Id) : State Id :=
  if s.request.status = .approved then
    if s.request.fourEyes then { s with execution := some .approved }
    else { s with request := { s.request with status := .blocked } }
  else s

/-- The items are read, and those that are held get their entries. -/
def resolve (s : State Id) : State Id :=
  { s with
    execution := some (.working s.targets.length
      ((s.targets.filter fun row => s.Held row.id).map fun row =>
        row.entry .blockedByLegalHold none)
      (s.targets.filter fun row => ¬ s.Held row.id) .idle)
    firstTargets := s.firstTargets.or (some (s.targets.map (·.id))) }

/-- What an execution does with the first of its items. -/
def treat (s : State Id) (targeted : ℕ) (entries : List (Entry Id)) (target : Row Id)
    (rest : List (Row Id)) : Phase Id → State Id
  | .idle =>
    let phase :=
      match target.blobId with
      | some blobId =>
        if s.sharedCount blobId target.id = 0 then .counted blobId else .removing false
      | none => .removing false
    { s with execution := some (.working targeted entries (target :: rest) phase) }
  | .counted blobId =>
    let phase := if blobId ∈ s.blobs then .found else .removing false
    { s with execution := some (.working targeted entries (target :: rest) phase) }
  | .found =>
    { s with execution := some (.working targeted entries (target :: rest) (.removing true)) }
  | .removing objectDeleted =>
    if s.Removable target.id then
      let outcome : Outcome :=
        if objectDeleted then .objectAndMetadataDeleted else .metadataDeletedBlobRetainedShared
      { s.deleteRows target objectDeleted with
        execution := some (.working targeted (entries ++ [target.entry outcome none]) rest .idle) }
    -- the transaction fails, and the job with it
    else { s with execution := none }

/-- What an event does. -/
def step (s : State Id) : Event Id → Option (State Id)
  | .deliver => if s.execution = none then some (deliver s) else none
  | .resolve => if s.execution = some .approved then some (resolve s) else none
  | .next =>
    match s.execution with
    | some (.working targeted entries (target :: rest) phase) =>
      some (treat s targeted entries target rest phase)
    | some (.working targeted entries [] _) =>
      let manifest := manifestOf s.request.id targeted entries
      some { s with stored := some manifest, execution := some (.put manifest) }
    | some (.put _) =>
      some { s with request := { s.request with status := .executed }, execution := none }
    | _ => none
  | .refuse error =>
    match s.execution with
    | some (.working targeted entries (target :: rest) .found) =>
      let detail := if error = [] then none else some error
      some { s with
        execution := some (.working targeted
          (entries ++ [target.entry .blockedByObjectLockOrStorage detail]) rest .idle) }
    | _ => none
  | .kill => if s.execution = none then none else some { s with execution := none }
  | .setHold c enabled =>
    some { s with
      held := if enabled then c :: s.held else s.held.filter fun other => other ≠ c }
  | .addToCase c item =>
    if ∃ row ∈ s.rows, row.id = item then some { s with caseItems := (c, item) :: s.caseItems }
    else none
  | .refer item =>
    if ∃ row ∈ s.rows, row.id = item then some { s with references := item :: s.references }
    else none
  | .record row =>
    if (∀ other ∈ s.rows, other.id ≠ row.id) ∧ row.id ∉ s.removed then
      some { s with rows := s.rows ++ [row], blobs := s.blobs ++ row.blobId.toList }
    else none

end Steps

/-! ## What is asked for -/

/-- **The manifest is complete.** A row is gone only when the stored manifest names it; and that of
an executed request has one entry for each item the request was first for, says of every deleted row
that it was deleted, and says so of no row that is there. -/
structure Complete [DecidableEq Id] (s : State Id) : Prop where
  named : ∀ item ∈ s.removed, s.Named item
  executed : s.request.status = .executed → ∃ manifest ∈ s.stored,
    (∀ items ∈ s.firstTargets, ∀ item ∈ items,
        manifest.entries.countP (fun entry => entry.evidenceItemId = item) = 1) ∧
      (∀ item ∈ s.removed, ∃ entry ∈ manifest.entries,
        entry.evidenceItemId = item ∧ ¬ entry.outcome.blocked) ∧
      ∀ entry ∈ manifest.entries, ¬ entry.outcome.blocked →
        ∀ row ∈ s.rows, row.id ≠ entry.evidenceItemId

/-! ## What it takes -/

section Covered

variable [DecidableEq Id]

/-- An execution that has deleted no row. -/
def Clean (execution : Execution Id) : Prop := ∀ entry ∈ execution.entries, entry.outcome.blocked

/-- A row is deleted only when a stored manifest names it; and where it cannot be deleted, the
execution, which fails, has deleted none before. -/
def NextCovered (s : State Id) : Execution Id → Prop
  | .working targeted entries (target :: rest) (.removing objectDeleted) =>
    if s.Removable target.id then s.Named target.id
    else Clean (.working targeted entries (target :: rest) (.removing objectDeleted))
  | _ => True

/-- **What keeps the manifest complete**: rows are deleted after a manifest that names them was
stored, and no execution ends early that has deleted any. -/
def Covered (s : State Id) : Event Id → Prop
  | .next => ∀ execution ∈ s.execution, NextCovered s execution
  | .kill => ∀ execution ∈ s.execution, Clean execution
  | _ => True

instance (execution : Execution Id) : Decidable (Clean execution) :=
  inferInstanceAs (Decidable (∀ entry ∈ execution.entries, _))

instance (s : State Id) (execution : Execution Id) : Decidable (NextCovered s execution) := by
  unfold NextCovered
  split
  · exact inferInstance
  · exact inferInstance

instance (s : State Id) (e : Event Id) : Decidable (Covered s e) := by
  unfold Covered
  split
  · exact inferInstance
  · exact inferInstance
  · exact inferInstance

end Covered

/-! ## The account of a request -/

section Sound

variable [DecidableEq Id] {s s' : State Id}

/-- Every item of the first execution has an entry or is still to be treated, and the entries are
right about what was deleted. -/
structure Accounts (firstTargets : Option (List Id)) (removed : List Id)
    (entries : List (Entry Id)) (rest : List (Row Id)) : Prop where
  nodup : (entries.map Entry.evidenceItemId ++ rest.map (·.id)).Nodup
  first : ∀ items ∈ firstTargets, ∀ item ∈ items,
    item ∈ entries.map Entry.evidenceItemId ++ rest.map (·.id)
  removed : ∀ item, item ∈ removed ↔
    ∃ entry ∈ entries, entry.evidenceItemId = item ∧ ¬ entry.outcome.blocked

/-- How the execution under way accounts for the request. -/
def Progress (s : State Id) : Prop :=
  match s.execution with
  | none =>
    (s.request.status = .executed →
        ∃ manifest ∈ s.stored, Accounts s.firstTargets s.removed manifest.entries []) ∧
      (s.request.status ≠ .executed → s.removed = [])
  | some .approved => s.request.status ≠ .executed ∧ s.removed = []
  | some (.working _ entries rest _) =>
    s.request.status ≠ .executed ∧ Accounts s.firstTargets s.removed entries rest
  | some (.put manifest) =>
    s.request.status ≠ .executed ∧ s.stored = some manifest ∧
      Accounts s.firstTargets s.removed manifest.entries []

/-- What holds as long as every event is covered. -/
structure Sound (s : State Id) : Prop where
  ids : (s.rows.map (·.id)).Nodup
  gone : ∀ item ∈ s.removed, ∀ row ∈ s.rows, row.id ≠ item
  first : ∀ items ∈ s.firstTargets, ∀ item ∈ items, item ∈ s.removed ∨
    ∃ row ∈ s.rows, row.id = item ∧ s.request.scope.covers row.toItem
  named : ∀ item ∈ s.removed, s.Named item
  progress : Progress s

/-- What a sound state says is complete. -/
theorem Sound.complete (hs : Sound s) : Complete s := by
  refine ⟨hs.named, fun hexecuted => ?_⟩
  have hprogress := hs.progress
  unfold Progress at hprogress
  have haccounts : ∃ manifest ∈ s.stored,
      Accounts s.firstTargets s.removed manifest.entries [] := by
    split at hprogress
    · exact hprogress.1 hexecuted
    · exact absurd hexecuted hprogress.1
    · exact absurd hexecuted hprogress.1
    · exact absurd hexecuted hprogress.1
  obtain ⟨manifest, hstored, haccounts⟩ := haccounts
  refine ⟨manifest, hstored, fun items hitems item hitem => ?_,
    fun item => (haccounts.removed item).mp, fun entry hentry hdeleted row hrow => ?_⟩
  · have hmem := haccounts.first items hitems item hitem
    have hnodup := haccounts.nodup
    rw [List.map_nil, List.append_nil] at hmem hnodup
    have hcount := List.count_eq_one_of_mem hnodup hmem
    rw [List.count, List.countP_map] at hcount
    rw [← hcount]
    exact List.countP_congr fun entry _ => by simp [beq_iff_eq]
  · exact hs.gone _ ((haccounts.removed _).mpr ⟨entry, hentry, rfl, hdeleted⟩) row hrow

/-! ### What the events keep -/

theorem deleteRows_rows (s : State Id) (target : Row Id) (objectDeleted : Bool) :
    ∃ f : Row Id → Row Id, (∀ row, (f row).id = row.id ∧ (f row).collectionId = row.collectionId) ∧
      (s.deleteRows target objectDeleted).rows =
        (s.rows.filter fun other => other.id ≠ target.id).map f := by
  unfold State.deleteRows
  split
  · split
    · refine ⟨_, fun row => ?_, rfl⟩
      split
      · exact ⟨rfl, rfl⟩
      · exact ⟨rfl, rfl⟩
    · exact ⟨id, fun _ => ⟨rfl, rfl⟩, (List.map_id _).symm⟩
  · exact ⟨id, fun _ => ⟨rfl, rfl⟩, (List.map_id _).symm⟩

theorem deleteRows_others (s : State Id) (target : Row Id) (objectDeleted : Bool) :
    (s.deleteRows target objectDeleted).removed = s.removed ++ [target.id] ∧
      (s.deleteRows target objectDeleted).request = s.request ∧
      (s.deleteRows target objectDeleted).stored = s.stored ∧
      (s.deleteRows target objectDeleted).firstTargets = s.firstTargets := by
  unfold State.deleteRows
  split
  · split
    · exact ⟨rfl, rfl, rfl, rfl⟩
    · exact ⟨rfl, rfl, rfl, rfl⟩
  · exact ⟨rfl, rfl, rfl, rfl⟩

/-- Covering does not look at the blob. -/
theorem covers_congr {scope : Scope Id} {item other : Item Id} (hid : other.id = item.id)
    (hcollection : other.collectionId = item.collectionId) :
    scope.covers other = scope.covers item := by
  unfold Scope.covers
  split
  · rw [hid]
  · rfl
  · rw [hcollection]

omit [DecidableEq Id] in
theorem Accounts.blocked {firstTargets : Option (List Id)} {removed : List Id}
    {entries : List (Entry Id)} {target : Row Id} {rest : List (Row Id)}
    (h : Accounts firstTargets removed entries (target :: rest)) {outcome : Outcome}
    {detail : Option JsString} (hblocked : outcome.blocked) :
    Accounts firstTargets removed (entries ++ [target.entry outcome detail]) rest where
  nodup := by simpa using h.nodup
  first items hitems item hitem := by simpa using h.first items hitems item hitem
  removed item := by
    rw [h.removed]
    refine ⟨?_, ?_⟩
    · rintro ⟨entry, hentry, heq⟩
      exact ⟨entry, List.mem_append_left _ hentry, heq⟩
    · rintro ⟨entry, hentry, hid, hnot⟩
      rcases List.mem_append.mp hentry with hentry | hentry
      · exact ⟨entry, hentry, hid, hnot⟩
      · obtain rfl := List.mem_singleton.mp hentry
        exact absurd hblocked hnot

omit [DecidableEq Id] in
theorem Accounts.deleted {firstTargets : Option (List Id)} {removed : List Id}
    {entries : List (Entry Id)} {target : Row Id} {rest : List (Row Id)}
    (h : Accounts firstTargets removed entries (target :: rest)) {outcome : Outcome}
    {detail : Option JsString} (hdeleted : ¬ outcome.blocked) :
    Accounts firstTargets (removed ++ [target.id]) (entries ++ [target.entry outcome detail])
      rest where
  nodup := by simpa using h.nodup
  first items hitems item hitem := by simpa using h.first items hitems item hitem
  removed item := by
    rw [List.mem_append, h.removed, List.mem_singleton]
    refine ⟨?_, ?_⟩
    · rintro (⟨entry, hentry, heq⟩ | rfl)
      · exact ⟨entry, List.mem_append_left _ hentry, heq⟩
      · exact ⟨_, List.mem_append_right _ (List.mem_singleton_self _), rfl, hdeleted⟩
    · rintro ⟨entry, hentry, hid, hnot⟩
      rcases List.mem_append.mp hentry with hentry | hentry
      · exact .inl ⟨entry, hentry, hid, hnot⟩
      · obtain rfl := List.mem_singleton.mp hentry
        exact .inr hid.symm

omit [DecidableEq Id] in
/-- Entries that are all blocked account for no deleted row. -/
theorem Accounts.clean {firstTargets : Option (List Id)} {removed : List Id}
    {entries : List (Entry Id)} {rest : List (Row Id)}
    (h : Accounts firstTargets removed entries rest)
    (hclean : ∀ entry ∈ entries, entry.outcome.blocked) : removed = [] := by
  refine List.eq_nil_iff_forall_not_mem.mpr fun item hitem => ?_
  obtain ⟨entry, hentry, -, hnot⟩ := (h.removed item).mp hitem
  exact hnot (hclean entry hentry)

theorem sound_deliver (hs : Sound s) (hidle : s.execution = none) : Sound (deliver s) := by
  have hprogress := hs.progress
  rw [Progress, hidle] at hprogress
  unfold deliver
  split
  · rename_i happroved
    have hstatus : s.request.status ≠ .executed := by
      rw [happroved]
      decide
    split
    · exact ⟨hs.ids, hs.gone, hs.first, hs.named, hstatus, hprogress.2 hstatus⟩
    · refine ⟨hs.ids, hs.gone, hs.first, hs.named, ?_⟩
      rw [Progress, hidle]
      exact ⟨by rintro ⟨⟩, fun _ => hprogress.2 hstatus⟩
  · exact hs

/-- The items that are read are parted into those that are held and the others. -/
theorem targets_perm (s : State Id) :
    ((s.targets.filter fun row => s.Held row.id).map (·.id) ++
      (s.targets.filter fun row => ¬ s.Held row.id).map (·.id)).Perm (s.targets.map (·.id)) := by
  rw [← List.map_append]
  refine List.Perm.map _ ?_
  simpa using List.filter_append_perm (fun row : Row Id => decide (s.Held row.id)) s.targets

theorem sound_resolve (hs : Sound s) (happroved : s.execution = some .approved) :
    Sound (resolve s) := by
  have hprogress := hs.progress
  rw [Progress, happroved] at hprogress
  obtain ⟨hstatus, hremoved⟩ := hprogress
  have hcovered : ∀ items ∈ (s.firstTargets.or (some (s.targets.map (·.id)))),
      ∀ item ∈ items, ∃ row ∈ s.targets, row.id = item := by
    intro items hitems item hitem
    rcases hfirst : s.firstTargets with _ | first
    · rw [hfirst] at hitems
      cases hitems
      obtain ⟨row, hrow, rfl⟩ := List.mem_map.mp hitem
      exact ⟨row, hrow, rfl⟩
    · rw [hfirst] at hitems
      cases hitems
      -- no row of the first execution is gone
      rcases hs.first items hfirst item hitem with hgone | ⟨row, hrow, hid, hcovers⟩
      · rw [hremoved] at hgone
        cases hgone
      · exact ⟨row, List.mem_filter.mpr ⟨hrow, hcovers⟩, hid⟩
  have hperm := targets_perm s
  have hids : ((s.targets.filter fun row => s.Held row.id).map fun row =>
      row.entry .blockedByLegalHold none).map Entry.evidenceItemId =
        (s.targets.filter fun row => s.Held row.id).map (·.id) := by
    rw [List.map_map]
    rfl
  refine ⟨hs.ids, hs.gone, fun items hitems item hitem => ?_, hs.named, hstatus, ?_, ?_, ?_⟩
  · obtain ⟨row, hrow, hid⟩ := hcovered items hitems item hitem
    obtain ⟨hmem, hcovers⟩ := List.mem_filter.mp hrow
    exact .inr ⟨row, hmem, hid, hcovers⟩
  · rw [hids, hperm.nodup_iff]
    exact hs.ids.sublist ((List.filter_sublist).map _)
  · intro items hitems item hitem
    obtain ⟨row, hrow, rfl⟩ := hcovered items hitems item hitem
    rw [hids, hperm.mem_iff]
    exact List.mem_map_of_mem hrow
  · intro item
    refine iff_of_false ?_ ?_
    · change item ∉ s.removed
      rw [hremoved]
      exact List.not_mem_nil
    · rintro ⟨entry, hentry, -, hnot⟩
      obtain ⟨row, -, rfl⟩ := List.mem_map.mp hentry
      exact hnot rfl

theorem sound_removing {targeted : ℕ} {entries : List (Entry Id)} {target : Row Id}
    {rest : List (Row Id)} {objectDeleted : Bool} (hs : Sound s)
    (hworking : s.execution = some (.working targeted entries (target :: rest)
      (.removing objectDeleted)))
    (hcovered : NextCovered s (.working targeted entries (target :: rest)
      (.removing objectDeleted))) :
    Sound (treat s targeted entries target rest (.removing objectDeleted)) := by
  have hprogress := hs.progress
  rw [Progress, hworking] at hprogress
  obtain ⟨hstatus, haccounts⟩ := hprogress
  rw [NextCovered] at hcovered
  rw [treat]
  split
  · rename_i hremovable
    rw [if_pos hremovable] at hcovered
    obtain ⟨f, hf, hrows⟩ := deleteRows_rows s target objectDeleted
    obtain ⟨hremoved, hrequest, hstored, hfirst⟩ := deleteRows_others s target objectDeleted
    refine ⟨?_, ?_, ?_, ?_, ?_⟩
    · change ((s.deleteRows target objectDeleted).rows.map (·.id)).Nodup
      rw [hrows, List.map_map]
      have hsame : ((·.id) ∘ f : Row Id → Id) = (·.id) := funext fun row => (hf row).1
      rw [hsame]
      exact hs.ids.sublist ((List.filter_sublist).map _)
    · change ∀ item ∈ (s.deleteRows target objectDeleted).removed,
        ∀ row ∈ (s.deleteRows target objectDeleted).rows, row.id ≠ item
      rw [hremoved, hrows]
      intro item hitem row hrow
      obtain ⟨old, hold, rfl⟩ := List.mem_map.mp hrow
      obtain ⟨hold, hne⟩ := List.mem_filter.mp hold
      rw [(hf old).1]
      rcases List.mem_append.mp hitem with hitem | hitem
      · exact hs.gone item hitem old hold
      · rw [List.mem_singleton.mp hitem]
        exact of_decide_eq_true hne
    · change ∀ items ∈ (s.deleteRows target objectDeleted).firstTargets, ∀ item ∈ items,
        item ∈ (s.deleteRows target objectDeleted).removed ∨
          ∃ row ∈ (s.deleteRows target objectDeleted).rows, row.id = item ∧
            (s.deleteRows target objectDeleted).request.scope.covers row.toItem
      rw [hfirst, hremoved, hrequest, hrows]
      intro items hitems item hitem
      by_cases hid : item = target.id
      · exact .inl (List.mem_append_right _ (List.mem_singleton.mpr hid))
      · refine (hs.first items hitems item hitem).imp (List.mem_append_left _) ?_
        rintro ⟨row, hrow, rfl, hcovers⟩
        refine ⟨f row, List.mem_map_of_mem (List.mem_filter.mpr ⟨hrow, decide_eq_true hid⟩),
          (hf row).1, ?_⟩
        rw [covers_congr (hf row).1 (hf row).2]
        exact hcovers
    · change ∀ item ∈ (s.deleteRows target objectDeleted).removed,
        ∃ manifest ∈ (s.deleteRows target objectDeleted).stored, _
      rw [hremoved, hstored]
      intro item hitem
      rcases List.mem_append.mp hitem with hitem | hitem
      · exact hs.named item hitem
      · rw [List.mem_singleton.mp hitem]
        exact hcovered
    · change (s.deleteRows target objectDeleted).request.status ≠ .executed ∧
        Accounts (s.deleteRows target objectDeleted).firstTargets
          (s.deleteRows target objectDeleted).removed _ rest
      rw [hrequest, hfirst, hremoved]
      refine ⟨hstatus, haccounts.deleted ?_⟩
      cases objectDeleted <;> decide
  · rename_i hfails
    rw [if_neg hfails] at hcovered
    exact ⟨hs.ids, hs.gone, hs.first, hs.named, fun h => absurd h hstatus,
      fun _ => haccounts.clean hcovered⟩

theorem sound_treat {targeted : ℕ} {entries : List (Entry Id)} {target : Row Id}
    {rest : List (Row Id)} {phase : Phase Id} (hs : Sound s)
    (hworking : s.execution = some (.working targeted entries (target :: rest) phase))
    (hcovered : NextCovered s (.working targeted entries (target :: rest) phase)) :
    Sound (treat s targeted entries target rest phase) := by
  have hprogress := hs.progress
  rw [Progress, hworking] at hprogress
  cases phase with
  | idle | counted blobId | found => exact ⟨hs.ids, hs.gone, hs.first, hs.named, hprogress⟩
  | removing objectDeleted => exact sound_removing hs hworking hcovered

/-- **A covered event keeps the account.** -/
theorem sound_step {e : Event Id} (hs : Sound s) (hcovered : Covered s e)
    (h : step s e = some s') : Sound s' := by
  cases e with
  | deliver =>
    rw [step] at h
    split_ifs at h with hidle
    cases h
    exact sound_deliver hs hidle
  | resolve =>
    rw [step] at h
    split_ifs at h with happroved
    cases h
    exact sound_resolve hs happroved
  | next =>
    have hprogress := hs.progress
    unfold Progress at hprogress
    rw [step] at h
    split at h
    · rename_i targeted entries target rest phase hworking
      cases h
      exact sound_treat hs hworking (hcovered _ hworking)
    · rename_i targeted entries phase hworking
      cases h
      simp only [hworking] at hprogress
      -- the manifest names what the execution has deleted
      refine ⟨hs.ids, hs.gone, hs.first, fun item hitem => ?_, hprogress.1, rfl, hprogress.2⟩
      obtain ⟨entry, hentry, hid, -⟩ := (hprogress.2.removed item).mp hitem
      exact ⟨_, rfl, entry, hentry, hid⟩
    · rename_i manifest hput
      cases h
      simp only [hput] at hprogress
      obtain ⟨hstatus, hstored, haccounts⟩ := hprogress
      refine ⟨hs.ids, hs.gone, hs.first, hs.named, fun _ => ⟨manifest, hstored, haccounts⟩, ?_⟩
      exact fun hnot => absurd rfl hnot
    · cases h
  | refuse error =>
    have hprogress := hs.progress
    unfold Progress at hprogress
    rw [step] at h
    split at h
    · rename_i targeted entries target rest hworking
      cases h
      simp only [hworking] at hprogress
      exact ⟨hs.ids, hs.gone, hs.first, hs.named, hprogress.1, hprogress.2.blocked rfl⟩
    · cases h
  | kill =>
    have hprogress := hs.progress
    unfold Progress at hprogress
    rw [step] at h
    split_ifs at h with hidle
    cases h
    obtain ⟨execution, hexecution⟩ := Option.ne_none_iff_exists'.mp hidle
    have hclean := hcovered execution hexecution
    simp only [hexecution] at hprogress
    have hkept : s.request.status ≠ .executed ∧ s.removed = [] := by
      cases execution with
      | approved => exact hprogress
      | working targeted entries rest phase => exact ⟨hprogress.1, hprogress.2.clean hclean⟩
      | put manifest => exact ⟨hprogress.1, hprogress.2.2.clean hclean⟩
    exact ⟨hs.ids, hs.gone, hs.first, hs.named, fun h => absurd h hkept.1, fun _ => hkept.2⟩
  | setHold c enabled =>
    cases h
    exact ⟨hs.ids, hs.gone, hs.first, hs.named, hs.progress⟩
  | addToCase c item | refer item =>
    rw [step] at h
    split_ifs at h
    cases h
    exact ⟨hs.ids, hs.gone, hs.first, hs.named, hs.progress⟩
  | record row =>
    rw [step] at h
    split_ifs at h with hfresh
    cases h
    refine ⟨?_, fun item hitem other hother => ?_, fun items hitems item hitem => ?_, hs.named,
      hs.progress⟩
    · rw [List.map_append, List.nodup_append]
      refine ⟨hs.ids, List.nodup_singleton _, ?_⟩
      intro id hid other hother
      obtain ⟨old, hold, rfl⟩ := List.mem_map.mp hid
      obtain rfl := List.mem_singleton.mp hother
      exact hfresh.1 old hold
    · rcases List.mem_append.mp hother with hother | hother
      · exact hs.gone item hitem other hother
      · obtain rfl := List.mem_singleton.mp hother
        rintro rfl
        exact hfresh.2 hitem
    · refine (hs.first items hitems item hitem).imp id ?_
      rintro ⟨old, hold, heq⟩
      exact ⟨old, List.mem_append_left _ hold, heq⟩

/-! ## Runs -/

/-- A request that no execution has treated. -/
structure Initial (s : State Id) : Prop where
  ids : (s.rows.map (·.id)).Nodup
  status : s.request.status ≠ .executed
  execution : s.execution = none
  firstTargets : s.firstTargets = none
  removed : s.removed = []

omit [DecidableEq Id] in
theorem Initial.sound [DecidableEq Id] (hs : Initial s) : Sound s where
  ids := hs.ids
  gone := by
    rw [hs.removed]
    rintro _ ⟨⟩
  first := by
    rw [hs.firstTargets]
    rintro _ ⟨⟩
  named := by
    rw [hs.removed]
    rintro _ ⟨⟩
  progress := by
    rw [Progress, hs.execution]
    exact ⟨fun h => absurd h hs.status, fun _ => hs.removed⟩

end Sound

/-! ### One item -/

/-- A request for one item with a blob of its own. -/
def requested : State ℕ where
  request := ⟨50, .evidenceItems [1], .approved, some 8, some 9⟩
  rows := [⟨⟨1, none, some 10⟩, js "memo.txt", js "ab"⟩]
  blobs := [10]
  held := []
  caseItems := []
  references := []
  stored := none
  execution := none
  firstTargets := none
  removed := []

theorem initial_requested : Initial requested :=
  ⟨List.nodup_singleton _, by decide, rfl, rfl, rfl⟩

/-- The object is locked first, and the worker is killed when the manifest says so; when the job is
delivered again, the lock has expired. -/
def lockedFirst : List (Event ℕ) :=
  [.deliver, .resolve, .next, .next, .refuse (js "AccessDenied"), .next, .kill, .deliver, .resolve,
    .next, .next, .next, .next, .next, .next]

/-- Nobody disturbs the execution. -/
def undisturbed : List (Event ℕ) := [.deliver, .resolve, .next, .next, .next, .next]

/-- The worker is killed when the row is deleted, and the job is delivered again. -/
def interrupted : List (Event ℕ) :=
  undisturbed ++ ([.kill, .deliver, .resolve, .next, .next] : List (Event ℕ))

end AegCloudDfir.Deletion.Manifests
