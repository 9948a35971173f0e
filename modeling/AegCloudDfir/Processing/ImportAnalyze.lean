import Mathlib
import AegCloudDfir.Lib.Places
import AegCloudDfir.Lib.Transition
import AegCloudDfir.Lib.UniqueRows
import AegCloudDfir.Production.Tables

/-!
# Unpacking forensic imports

`processImportAnalyze` (`apps/worker/src/processors/import-analyze.ts`) has a source analyzed, and
unpacks the tar it gets: a manifest with artifacts, and payloads. An artifact with a payload becomes
an item of evidence with a row and a preview of its own; one without is a row of the source, whose
preview it shares. An execution skips what has a row already, and is complete when it has come
through, whatever it has found.

Every execution gets the same tar. What the bytes of an entry are parsed to, and their digest, come
with the entry. Staged copies and originals, cases, and what rows say besides are left out.

* `step` — executions, each step between two points at which a crash makes a difference.
* `Unpacked` — every artifact of the manifest has exactly what it should have.
* `Matched` — the artifacts of a tar can be told apart, and all have their payloads.
* `unpacked_of_matched` — then an import that is complete is unpacked, after any run.
-/

namespace AegCloudDfir.Processing.ImportAnalyze

open Transition
open AegCloudDfir.Production (MalwareStatus)

variable {Id : Type}

/-! ## The tar -/

/-- `artifactSchema` -/
structure Artifact where
  path : JsString
  size : ℕ
  sha256 : JsString
  payloadPath : Option JsString
  /-- the JSON of `preview` -/
  preview : JsString
  deriving DecidableEq

/-- `manifestSchema` -/
structure Manifest where
  artifacts : List Artifact
  deriving DecidableEq

/-- An entry of the tar, with what is made of its bytes. -/
structure Entry where
  name : JsString
  size : ℕ
  sha256 : JsString
  /-- what they are parsed to, if they are a manifest that is not too long -/
  manifest : Option Manifest
  deriving DecidableEq

/-- `manifest` and `byPayload` of `unpackBundle`, the latest entry of the map first. -/
structure Reader where
  manifest : Option Manifest
  byPayload : List (JsString × Artifact)
  deriving DecidableEq

/-- The entry is read as a manifest. -/
def Entry.IsManifest (entry : Entry) : Prop := entry.name = js "manifest.json"

instance (entry : Entry) : Decidable entry.IsManifest := inferInstanceAs (Decidable (_ = _))

/-- What a manifest sets in the map. -/
def Manifest.payloads (manifest : Manifest) : List (JsString × Artifact) :=
  manifest.artifacts.filterMap fun artifact => artifact.payloadPath.map fun path => (path, artifact)

/-- A manifest was read. -/
def Reader.read (reader : Reader) (manifest : Manifest) : Reader where
  manifest := some manifest
  byPayload := manifest.payloads.reverse ++ reader.byPayload

/-- The artifact that an entry is the payload of. -/
def Reader.artifact? (reader : Reader) (entry : Entry) : Option Artifact :=
  reader.byPayload.lookup entry.name

/-- The directories of a path, `directoryPath` for each part but the last. -/
def directories (path : JsString) : List JsString :=
  let pathParts := (path.splitOn 0x2f).filter (· ≠ [])
  (List.range (pathParts.length - 1)).map fun index =>
    joinWith (js "/") (pathParts.take (index + 1))

/-! ## Rows and objects -/

/-- `ForensicImportStatus` -/
inductive Status : Type where
  | uploaded
  | analyzing
  | completed
  | failed
  deriving DecidableEq

/-- The `kind` of a row of `import_artifacts`. -/
inductive RowKind : Type where
  | file
  | directory
  deriving DecidableEq

/-- A row of `import_artifacts`; `evidenceItemId` also stands for `previewKey`. -/
structure ArtifactRow (Id : Type) where
  path : JsString
  kind : RowKind
  evidenceItemId : Option Id
  size : ℕ
  sha256 : JsString
  deriving DecidableEq

/-- A row of `evidence_items` with the id of the import. -/
structure Item (Id : Type) where
  id : Id
  sourcePath : JsString
  size : ℕ
  sha256 : JsString
  deriving DecidableEq

/-- A row of `evidence_relationships` of the kind `container_member`. -/
structure Member (Id : Type) where
  parentId : Id
  childId : Id
  detail : JsString
  deriving DecidableEq

/-- An execution of `processImportAnalyze`. -/
inductive Execution (Id : Type) : Type where
  | begun (existingPaths : List JsString)
  /-- the source cannot be analyzed -/
  | refused
  | unpacking (existingPaths : List JsString) (reader : Reader) (rest : List Entry)
  /-- the preview of a payload is stored, in the name of an item to come -/
  | stored (existingPaths : List JsString) (reader : Reader) (rest : List Entry)
    (artifact : Artifact) (evidenceItemId : Id)
  | listing (existingPaths : List JsString) (manifest : Manifest) (rest : List Artifact)
  /-- the preview of an artifact without payload is stored -/
  | previewed (existingPaths : List JsString) (manifest : Manifest) (rest : List Artifact)
    (artifact : Artifact)
  /-- the manifest is stored -/
  | written
  | ended
  deriving DecidableEq

/-- An import, and what is under way. -/
structure State (Id : Type) where
  status : Status
  /-- whether the source has a blob -/
  blob : Bool
  malwareStatus : MalwareStatus
  rows : List (ArtifactRow Id)
  items : List (Item Id)
  members : List (Member Id)
  /-- the previews by the item in their key, the latest first -/
  previews : List (Id × JsString)
  /-- the manifest that is recorded -/
  manifest : Option Manifest
  executions : List (Execution Id)

/-- What does not change: the configuration, the source and the tar. -/
structure Setup (Id : Type) where
  clamavEnabled : Bool
  sourceEvidenceItemId : Id
  bundle : List Entry

namespace State

variable (s : State Id)

/-- A path has a row. -/
def Taken (path : JsString) : Prop := ∃ row ∈ s.rows, row.path = path

instance (path : JsString) : Decidable (s.Taken path) :=
  inferInstanceAs (Decidable (∃ row ∈ s.rows, _))

/-- An execution has not come to its end. -/
def Live (i : ℕ) : Prop := ∃ execution ∈ s.executions[i]?, execution ≠ .ended

instance [DecidableEq Id] (i : ℕ) : Decidable (s.Live i) :=
  inferInstanceAs (Decidable (∃ execution ∈ s.executions[i]?, _))

/-- An execution goes on. -/
def setExecution (i : ℕ) (execution : Execution Id) : State Id :=
  { s with executions := s.executions.set i execution }

/-- An execution throws. -/
def fail (i : ℕ) : State Id := { s.setExecution i .ended with status := .failed }

/-- `persistPreview` -/
def persistPreview (evidenceItemId : Id) (artifact : Artifact) : State Id :=
  { s with previews := (evidenceItemId, artifact.preview) :: s.previews }

/-- The row of a directory. -/
def directoryRow (path : JsString) : ArtifactRow Id := ⟨path, .directory, none, 0, []⟩

/-- The row of an artifact. -/
def fileRow (artifact : Artifact) (evidenceItemId : Id) : ArtifactRow Id :=
  ⟨artifact.path, .file, some evidenceItemId, artifact.size, artifact.sha256⟩

end State

/-! ## Executions -/

/-- What can happen next. -/
inductive Event (Id : Type) : Type where
  /-- a job is delivered, for the first time or again -/
  | deliver
  /-- an execution takes its next step, and draws the id if it needs one -/
  | next (i : ℕ) (evidenceItemId : Id)
  /-- it throws -/
  | fail (i : ℕ)
  | kill (i : ℕ)
  /-- something else sets the status: a retry, a scan, or a job that failed for good -/
  | uploaded
  | failed
  /-- the source is scanned -/
  | scan (malwareStatus : MalwareStatus)

section Steps

variable [DecidableEq Id] (setup : Setup Id) (s : State Id)

/-- `processImportAnalyze` up to where it sets the status. -/
def deliver : State Id :=
  if s.status = .completed then s
  else if s.blob = false then s
  else if s.malwareStatus = .infected then { s with executions := s.executions ++ [.refused] }
  else if setup.clamavEnabled ∧ s.malwareStatus = .notScanned then s
  else if setup.clamavEnabled ∧ s.malwareStatus = .scanFailed then
    { s with executions := s.executions ++ [.refused] }
  else { s with executions := s.executions ++ [.begun (s.rows.map ArtifactRow.path)] }

/-- An entry of the tar, up to where the preview of its artifact is stored. -/
def unpack (i : ℕ) (evidenceItemId : Id) (existingPaths : List JsString) (reader : Reader)
    (entry : Entry) (rest : List Entry) : Option (State Id) :=
  if entry.IsManifest then
    match entry.manifest with
    | none => some (s.fail i)
    | some manifest =>
      some (s.setExecution i (.unpacking existingPaths (reader.read manifest) rest))
  else
    match reader.artifact? entry with
    | none => some (s.setExecution i (.unpacking existingPaths reader rest))
    | some artifact =>
      if artifact.path ∈ existingPaths then
        some (s.setExecution i (.unpacking existingPaths reader rest))
      else if entry.sha256 ≠ artifact.sha256 ∨ entry.size ≠ artifact.size then some (s.fail i)
      else if evidenceItemId = setup.sourceEvidenceItemId ∨
          evidenceItemId ∈ s.previews.map Prod.fst then none
      else some ((s.persistPreview evidenceItemId artifact).setExecution i
        (.stored existingPaths reader rest artifact evidenceItemId))

/-- The transaction of `persistPayload`. A row has a path and an item of its own. -/
def persistPayload (i : ℕ) (existingPaths : List JsString) (reader : Reader) (rest : List Entry)
    (artifact : Artifact) (evidenceItemId : Id) : State Id :=
  let rows := UniqueRows.insertAll ArtifactRow.path s.rows
    ((directories artifact.path).map State.directoryRow)
  if ∃ row ∈ rows, row.path = artifact.path ∨ row.evidenceItemId = some evidenceItemId then s.fail i
  else
    { s.setExecution i (.unpacking (artifact.path :: existingPaths) reader rest) with
      rows := rows ++ [State.fileRow artifact evidenceItemId]
      items := s.items ++ [⟨evidenceItemId, artifact.path, artifact.size, artifact.sha256⟩]
      members := s.members ++ [⟨setup.sourceEvidenceItemId, evidenceItemId, artifact.path⟩] }

/-- The transaction for an artifact without payload. -/
def persistListed (i : ℕ) (existingPaths : List JsString) (manifest : Manifest)
    (rest : List Artifact) (artifact : Artifact) : State Id :=
  if ∃ row ∈ s.rows, row.path = artifact.path ∨
      row.evidenceItemId = some setup.sourceEvidenceItemId then s.fail i
  else
    { s.setExecution i (.listing existingPaths manifest rest) with
      rows := s.rows ++ [State.fileRow artifact setup.sourceEvidenceItemId] }

/-- The next step of an execution. -/
def next (i : ℕ) (evidenceItemId : Id) : Execution Id → Option (State Id)
  | .begun existingPaths =>
    some { s.setExecution i (.unpacking existingPaths ⟨none, []⟩ setup.bundle) with
      status := .analyzing }
  | .refused => some (s.fail i)
  | .unpacking existingPaths reader [] =>
    match reader.manifest with
    | none => some (s.fail i)
    | some manifest => some (s.setExecution i (.listing existingPaths manifest
        (manifest.artifacts.filter fun artifact => artifact.payloadPath = none)))
  | .unpacking existingPaths reader (entry :: rest) =>
    unpack setup s i evidenceItemId existingPaths reader entry rest
  | .stored existingPaths reader rest artifact id =>
    some (persistPayload setup s i existingPaths reader rest artifact id)
  | .listing _ manifest [] =>
    some { s.setExecution i .written with manifest := some manifest }
  | .listing existingPaths manifest (artifact :: rest) =>
    if artifact.path ∈ existingPaths then
      some (s.setExecution i (.listing existingPaths manifest rest))
    else some ((s.persistPreview setup.sourceEvidenceItemId artifact).setExecution i
      (.previewed existingPaths manifest rest artifact))
  | .previewed existingPaths manifest rest artifact =>
    some (persistListed setup s i existingPaths manifest rest artifact)
  | .written => some { s.setExecution i .ended with status := .completed }
  | .ended => none

/-- What an event does. -/
def step : Event Id → Option (State Id)
  | .deliver => some (deliver setup s)
  | .next i evidenceItemId => s.executions[i]?.bind (next setup s i evidenceItemId)
  | .fail i => if s.Live i then some (s.fail i) else none
  | .kill i => if s.Live i then some (s.setExecution i .ended) else none
  | .uploaded => some { s with status := .uploaded }
  | .failed => some { s with status := .failed }
  | .scan malwareStatus => some { s with malwareStatus := malwareStatus }

end Steps

/-! ## What is asked for -/

section Asked

variable [DecidableEq Id] (setup : Setup Id) (s : State Id)

/-- The one row under the path of an artifact is that of a file, and has what the manifest says. -/
structure HasRow (artifact : Artifact) : Prop where
  one : (s.rows.countP fun row => row.path = artifact.path) = 1
  data : ∀ row ∈ s.rows, row.path = artifact.path →
    row.kind = .file ∧ row.size = artifact.size ∧ row.sha256 = artifact.sha256 ∧
      ∃ id ∈ row.evidenceItemId, s.previews.lookup id = some artifact.preview

/-- An artifact with a payload has one item, which is a member of the source once. -/
structure HasItem (artifact : Artifact) : Prop where
  one : (s.items.countP fun item => item.sourcePath = artifact.path) = 1
  member : ∀ item ∈ s.items, item.sourcePath = artifact.path →
    item.size = artifact.size ∧ item.sha256 = artifact.sha256 ∧
      (s.members.filter fun member => member.childId = item.id) =
        [⟨setup.sourceEvidenceItemId, item.id, artifact.path⟩]

/-- **The import is unpacked as its manifest says.** -/
structure Unpacked (manifest : Manifest) : Prop where
  rows : ∀ artifact ∈ manifest.artifacts, HasRow s artifact
  items : ∀ artifact ∈ manifest.artifacts, artifact.payloadPath ≠ none → HasItem setup s artifact
  others : ∀ item ∈ s.items, ∃ artifact ∈ manifest.artifacts,
    artifact.payloadPath ≠ none ∧ artifact.path = item.sourcePath

/-- An import that is complete is unpacked as the manifest says that is recorded. -/
def Exact : Prop :=
  s.status = .completed → ∃ manifest ∈ s.manifest, Unpacked setup s manifest

end Asked

/-! ## What it takes -/

/-- What is read of a tar, up to an entry that is not a manifest though it should be. -/
def scan (entries : List Entry) : Reader :=
  entries.foldl (fun reader entry =>
    if entry.IsManifest then (entry.manifest.map reader.read).getD reader else reader) ⟨none, []⟩

/-- An entry is the payload of an artifact. -/
def Payload (before : List Entry) (entry : Entry) (artifact : Artifact) : Prop :=
  ¬ entry.IsManifest ∧ (scan before).artifact? entry = some artifact

/-- An artifact has its payload in a part of a tar. -/
def Provided (entries : List Entry) (artifact : Artifact) : Prop :=
  ∃ before entry after, entries = before ++ entry :: after ∧ Payload before entry artifact

/-- **The artifacts of a tar can be told apart, and all have their payloads.** -/
structure Matched (bundle : List Entry) (manifest : Manifest) : Prop where
  /-- no two have one path -/
  paths : ∀ a ∈ manifest.artifacts, ∀ b ∈ manifest.artifacts, a.path = b.path → a = b
  /-- payloads that are named have an entry after the manifest -/
  provided : ∀ a ∈ manifest.artifacts, a.payloadPath ≠ none → Provided bundle a
  /-- entries are payloads of artifacts in the manifest -/
  known : ∀ a, Provided bundle a → a ∈ manifest.artifacts
  /-- a path that is also a directory of a payload has a payload before it -/
  files : ∀ before entry after b, bundle = before ++ entry :: after → Payload before entry b →
    ∀ a ∈ manifest.artifacts, a.path ∈ directories b.path → Provided before a

/-! ## Reading -/

section Reading

variable {before entries : List Entry} {entry : Entry} {reader : Reader} {a b : Artifact}

@[simp] theorem scan_append_singleton (before : List Entry) (entry : Entry) :
    scan (before ++ [entry]) = if entry.IsManifest then
      (entry.manifest.map (scan before).read).getD (scan before) else scan before := by
  rw [scan, List.foldl_append]
  rfl

theorem Provided.append (h : Provided before a) (entry : Entry) :
    Provided (before ++ [entry]) a := by
  obtain ⟨first, payload, after, rfl, hpayload⟩ := h
  exact ⟨first, payload, after ++ [entry], by simp, hpayload⟩

theorem not_provided_nil : ¬ Provided [] a := by
  rintro ⟨first, payload, after, heq, -⟩
  simp at heq

/-- What has its payload up to an entry has it before, or it is the payload. -/
theorem provided_append_singleton : Provided (before ++ [entry]) a ↔
    Provided before a ∨ Payload before entry a := by
  refine ⟨?_, ?_⟩
  · rintro ⟨first, payload, after, heq, hpayload⟩
    rcases List.eq_nil_or_concat after with rfl | ⟨after, last, rfl⟩
    · obtain ⟨rfl, hlast⟩ := List.append_inj' heq rfl
      obtain rfl := List.singleton_inj.mp hlast
      exact .inr hpayload
    · rw [List.concat_eq_append, ← List.cons_append, ← List.append_assoc] at heq
      obtain ⟨rfl, -⟩ := List.append_inj' heq rfl
      exact .inl ⟨first, payload, after, rfl, hpayload⟩
  · rintro (h | h)
    · exact h.append entry
    · exact ⟨before, entry, [], rfl, h⟩

/-- What the map has under a name is an artifact with that payload. -/
theorem payloadPath_of_mem_byPayload (entries : List Entry) {name : JsString} {a : Artifact}
    (h : (name, a) ∈ (scan entries).byPayload) : a.payloadPath = some name := by
  induction entries using List.reverseRecOn with
  | nil => exact (List.not_mem_nil h).elim
  | append_singleton before entry ih =>
    rw [scan_append_singleton] at h
    split at h
    · cases hmanifest : entry.manifest with
      | none =>
        rw [hmanifest] at h
        exact ih h
      | some manifest =>
        rw [hmanifest] at h
        rcases List.mem_append.mp h with h | h
        · obtain ⟨other, -, heq⟩ := List.mem_filterMap.mp (List.mem_reverse.mp h)
          obtain ⟨path, hpath, hpair⟩ := Option.map_eq_some_iff.mp heq
          cases hpair
          exact hpath
        · exact ih h
    · exact ih h

theorem Payload.payloadPath (h : Payload before entry a) : a.payloadPath ≠ none := by
  obtain ⟨l, l', heq, -⟩ := List.lookup_eq_some_iff.mp h.2
  have hmem : (entry.name, a) ∈ (scan before).byPayload := by
    rw [heq]
    exact List.mem_append_right _ List.mem_cons_self
  rw [payloadPath_of_mem_byPayload before hmem]
  rintro ⟨⟩

/-- The map is empty as long as no manifest was read. -/
theorem byPayload_eq_nil (entries : List Entry) (h : (scan entries).manifest = none) :
    (scan entries).byPayload = [] := by
  induction entries using List.reverseRecOn with
  | nil => rfl
  | append_singleton before entry ih =>
    rw [scan_append_singleton] at h ⊢
    split at h
    next hmanifest =>
      rw [if_pos hmanifest]
      cases hparsed : entry.manifest with
      | none =>
        rw [hparsed] at h
        exact ih h
      | some manifest =>
        rw [hparsed] at h
        cases h
    next hmanifest =>
      rw [if_neg hmanifest]
      exact ih h

/-- Without a manifest nothing is a payload. -/
theorem not_provided_of_manifest_eq_none (entries : List Entry)
    (h : (scan entries).manifest = none) : ¬ Provided entries a := by
  induction entries using List.reverseRecOn with
  | nil => exact not_provided_nil
  | append_singleton before entry ih =>
    have hbefore : (scan before).manifest = none := by
      rw [scan_append_singleton] at h
      split at h
      · cases hparsed : entry.manifest with
        | none =>
          rw [hparsed] at h
          exact h
        | some manifest =>
          rw [hparsed] at h
          cases h
      · exact h
    rw [provided_append_singleton]
    rintro (hprovided | hpayload)
    · exact ih hbefore hprovided
    · have hlookup := hpayload.2
      rw [Reader.artifact?, byPayload_eq_nil before hbefore] at hlookup
      cases hlookup

end Reading

/-! ## What holds during a run -/

section Invariant

variable (setup : Setup Id) (m : Manifest)

/-- The item of a row. -/
def itemOf [DecidableEq Id] (row : ArtifactRow Id) : Option (Item Id) :=
  row.evidenceItemId.bind fun id =>
    if id = setup.sourceEvidenceItemId then none
    else some ⟨id, row.path, row.size, row.sha256⟩

variable [DecidableEq Id] (s : State Id)

/-- A row is that of an artifact, or it is in nobody's way. -/
inductive RowSound (row : ArtifactRow Id) : Prop where
  | payload (a : Artifact) (id : Id) (hmem : a ∈ m.artifacts) (hpath : a.payloadPath ≠ none)
    (hid : id ≠ setup.sourceEvidenceItemId) (hrow : row = State.fileRow a id)
    (hpreview : s.previews.lookup id = some a.preview)
  | listed (a : Artifact) (hmem : a ∈ m.artifacts) (hpath : a.payloadPath = none)
    (hrow : row = State.fileRow a setup.sourceEvidenceItemId)
    (hpreview : (s.previews.lookup setup.sourceEvidenceItemId).isSome)
  | directory (path : JsString) (hrow : row = State.directoryRow path)
    (hpath : ∀ a ∈ m.artifacts, a.path ≠ path)

/-- How far an execution has come, everything before has its row. -/
def Progress (before rest : List Entry) (reader : Reader) : Prop :=
  setup.bundle = before ++ rest ∧ reader = scan before ∧ ∀ a, Provided before a → s.Taken a.path

/-- What an execution knows of rows and objects. -/
def Execution.Sound : Execution Id → Prop
  | .begun existingPaths => ∀ path ∈ existingPaths, s.Taken path
  | .refused | .ended => True
  | .unpacking existingPaths reader rest => (∀ path ∈ existingPaths, s.Taken path) ∧
    ∃ before, Progress setup s before rest reader
  | .stored existingPaths reader rest a id => (∀ path ∈ existingPaths, s.Taken path) ∧
    (∃ before entry, Payload before entry a ∧ Progress setup s before (entry :: rest) reader) ∧
    id ≠ setup.sourceEvidenceItemId ∧ s.previews.lookup id = some a.preview
  | .listing existingPaths manifest rest => (∀ path ∈ existingPaths, s.Taken path) ∧
    manifest = m ∧ (∀ a ∈ rest, a ∈ m.artifacts ∧ a.payloadPath = none) ∧
    ∀ a ∈ m.artifacts, a ∈ rest ∨ s.Taken a.path
  | .previewed existingPaths manifest rest a => (∀ path ∈ existingPaths, s.Taken path) ∧
    manifest = m ∧ (∀ b ∈ a :: rest, b ∈ m.artifacts ∧ b.payloadPath = none) ∧
    (∀ b ∈ m.artifacts, b ∈ a :: rest ∨ s.Taken b.path) ∧
    (s.previews.lookup setup.sourceEvidenceItemId).isSome
  | .written => s.manifest = some m ∧ ∀ a ∈ m.artifacts, s.Taken a.path

/-- **What holds during a run** over a tar whose artifacts are matched. -/
structure Sound : Prop where
  paths : (s.rows.map ArtifactRow.path).Nodup
  ids : (s.rows.filterMap ArtifactRow.evidenceItemId).Nodup
  items : s.items = s.rows.filterMap (itemOf setup)
  members : s.members = s.items.map fun item =>
    ⟨setup.sourceEvidenceItemId, item.id, item.sourcePath⟩
  rows : ∀ row ∈ s.rows, RowSound setup m s row
  preview : ∀ preview, s.previews.lookup setup.sourceEvidenceItemId = some preview →
    ∃ a ∈ m.artifacts, a.payloadPath = none ∧ a.preview = preview
  executions : ∀ execution ∈ s.executions, execution.Sound setup m s
  complete : s.status = .completed → s.manifest = some m ∧ ∀ a ∈ m.artifacts, s.Taken a.path

/-- Rows, previews and the manifest are still there. -/
structure Grown (s' : State Id) : Prop where
  taken : ∀ path, s.Taken path → s'.Taken path
  previews : ∀ id ≠ setup.sourceEvidenceItemId, ∀ preview, s.previews.lookup id = some preview →
    s'.previews.lookup id = some preview
  source : (s.previews.lookup setup.sourceEvidenceItemId).isSome →
    (s'.previews.lookup setup.sourceEvidenceItemId).isSome
  manifest : s.manifest = some m → s'.manifest = some m

variable {setup m s} {s' : State Id}

theorem Grown.of_eq (hrows : s'.rows = s.rows) (hpreviews : s'.previews = s.previews)
    (hmanifest : s'.manifest = s.manifest) : Grown setup m s s' where
  taken path h := by
    rw [State.Taken, hrows]
    exact h
  previews id _ preview h := by
    rw [hpreviews]
    exact h
  source h := by
    rw [hpreviews]
    exact h
  manifest h := hmanifest.trans h

theorem RowSound.grown {row : ArtifactRow Id} (h : RowSound setup m s row)
    (hg : Grown setup m s s') : RowSound setup m s' row := by
  cases h with
  | payload a id hmem hpath hid hrow hpreview =>
    exact .payload a id hmem hpath hid hrow (hg.previews id hid _ hpreview)
  | listed a hmem hpath hrow hpreview => exact .listed a hmem hpath hrow (hg.source hpreview)
  | directory path hrow hpath => exact .directory path hrow hpath

theorem Progress.grown {before rest : List Entry} {reader : Reader}
    (h : Progress setup s before rest reader) (hg : Grown setup m s s') :
    Progress setup s' before rest reader :=
  ⟨h.1, h.2.1, fun a ha => hg.taken _ (h.2.2 a ha)⟩

theorem Execution.Sound.grown {execution : Execution Id} (h : execution.Sound setup m s)
    (hg : Grown setup m s s') : execution.Sound setup m s' := by
  have hexisting : ∀ paths : List JsString, (∀ path ∈ paths, s.Taken path) →
      ∀ path ∈ paths, s'.Taken path := fun paths h path hpath => hg.taken path (h path hpath)
  cases execution with
  | begun existingPaths => exact hexisting _ h
  | refused => trivial
  | unpacking existingPaths reader rest =>
    obtain ⟨hpaths, before, hprogress⟩ := h
    exact ⟨hexisting _ hpaths, before, hprogress.grown hg⟩
  | stored existingPaths reader rest a id =>
    obtain ⟨hpaths, ⟨before, entry, hpayload, hprogress⟩, hid, hpreview⟩ := h
    exact ⟨hexisting _ hpaths, ⟨before, entry, hpayload, hprogress.grown hg⟩, hid,
      hg.previews id hid _ hpreview⟩
  | listing existingPaths manifest rest =>
    obtain ⟨hpaths, hmanifest, hrest, hdone⟩ := h
    exact ⟨hexisting _ hpaths, hmanifest, hrest, fun a ha => (hdone a ha).imp_right (hg.taken _)⟩
  | previewed existingPaths manifest rest a =>
    obtain ⟨hpaths, hmanifest, hrest, hdone, hsource⟩ := h
    exact ⟨hexisting _ hpaths, hmanifest, hrest, fun b hb => (hdone b hb).imp_right (hg.taken _),
      hg.source hsource⟩
  | written => exact ⟨hg.manifest h.1, fun a ha => hg.taken _ (h.2 a ha)⟩
  | ended => trivial

/-- An execution goes on. -/
theorem Sound.setExecution (hs : Sound setup m s) (i : ℕ) {execution : Execution Id}
    (h : execution.Sound setup m s) : Sound setup m (s.setExecution i execution) :=
  have hg : Grown setup m s (s.setExecution i execution) := .of_eq rfl rfl rfl
  { hs with
    rows := fun row hrow => (hs.rows row hrow).grown hg
    executions := Places.forall_mem_set
      (fun other hother => (hs.executions other hother).grown hg) (h.grown hg) }

/-- The status is set, but not to `completed`. -/
theorem Sound.setStatus (hs : Sound setup m s) {status : Status} (h : status ≠ .completed) :
    Sound setup m { s with status := status } :=
  have hg : Grown setup m s { s with status := status } := .of_eq rfl rfl rfl
  { hs with
    rows := fun row hrow => (hs.rows row hrow).grown hg
    executions := fun other hother => (hs.executions other hother).grown hg
    complete := fun hcompleted => absurd hcompleted h }

theorem Sound.fail (hs : Sound setup m s) (i : ℕ) : Sound setup m (s.fail i) :=
  (hs.setExecution i (show Execution.Sound setup m s .ended from trivial)).setStatus (by rintro ⟨⟩)

@[simp] theorem lookup_persistPreview_self (id : Id) (a : Artifact) :
    (s.persistPreview id a).previews.lookup id = some a.preview := List.lookup_cons_self

theorem lookup_persistPreview_of_ne {id other : Id} (a : Artifact) (h : other ≠ id) :
    (s.persistPreview id a).previews.lookup other = s.previews.lookup other := by
  rw [State.persistPreview, List.lookup_cons, beq_false_of_ne h]

/-- Something is stored as a preview. -/
theorem Sound.persistPreview (hs : Sound setup m s) {id : Id} {a : Artifact}
    (hg : Grown setup m s (s.persistPreview id a))
    (hpreview : id = setup.sourceEvidenceItemId → a ∈ m.artifacts ∧ a.payloadPath = none) :
    Sound setup m (s.persistPreview id a) :=
  { hs with
    rows := fun row hrow => (hs.rows row hrow).grown hg
    preview := fun preview hlookup => by
      by_cases hid : id = setup.sourceEvidenceItemId
      · obtain ⟨hmem, hpath⟩ := hpreview hid
        rw [hid, lookup_persistPreview_self] at hlookup
        exact ⟨a, hmem, hpath, Option.some.inj hlookup⟩
      · rw [lookup_persistPreview_of_ne a (Ne.symm hid)] at hlookup
        exact hs.preview preview hlookup
    executions := fun other hother => (hs.executions other hother).grown hg
    complete := fun hcompleted => by
      obtain ⟨hmanifest, htaken⟩ := hs.complete hcompleted
      exact ⟨hmanifest, htaken⟩ }

/-- The preview of an item to come. -/
theorem grown_persistPreview_of_fresh {id : Id} (a : Artifact)
    (hid : id ≠ setup.sourceEvidenceItemId) (hfresh : id ∉ s.previews.map Prod.fst) :
    Grown setup m s (s.persistPreview id a) := by
  refine ⟨fun _ h => h, fun other _ preview h => ?_, fun h => ?_, fun h => h⟩
  · have hne : other ≠ id := by
      rintro rfl
      obtain ⟨l, l', heq, -⟩ := List.lookup_eq_some_iff.mp h
      refine hfresh ?_
      rw [heq]
      simp
    rw [lookup_persistPreview_of_ne a hne]
    exact h
  · rw [lookup_persistPreview_of_ne a (Ne.symm hid)]
    exact h

/-- The preview of the source. -/
theorem grown_persistPreview_source (a : Artifact) :
    Grown setup m s (s.persistPreview setup.sourceEvidenceItemId a) := by
  refine ⟨fun _ h => h, fun other hother preview h => ?_, fun _ => ?_, fun h => h⟩
  · rw [lookup_persistPreview_of_ne a hother]
    exact h
  · rw [lookup_persistPreview_self]
    rfl

/-- Rows are written, with the items and members that belong to them. -/
theorem Sound.commit (hs : Sound setup m s) {new : List (ArtifactRow Id)}
    (hpaths : ((s.rows ++ new).map ArtifactRow.path).Nodup)
    (hids : ((s.rows ++ new).filterMap ArtifactRow.evidenceItemId).Nodup)
    (hnew : ∀ row ∈ new, RowSound setup m s row) :
    Grown setup m s { s with
      rows := s.rows ++ new
      items := s.items ++ new.filterMap (itemOf setup)
      members := s.members ++ (new.filterMap (itemOf setup)).map fun item =>
        ⟨setup.sourceEvidenceItemId, item.id, item.sourcePath⟩ } ∧
    Sound setup m { s with
      rows := s.rows ++ new
      items := s.items ++ new.filterMap (itemOf setup)
      members := s.members ++ (new.filterMap (itemOf setup)).map fun item =>
        ⟨setup.sourceEvidenceItemId, item.id, item.sourcePath⟩ } := by
  have hg : Grown setup m s { s with
      rows := s.rows ++ new
      items := s.items ++ new.filterMap (itemOf setup)
      members := s.members ++ (new.filterMap (itemOf setup)).map fun item =>
        ⟨setup.sourceEvidenceItemId, item.id, item.sourcePath⟩ } :=
    ⟨fun _ h => Places.exists_mem_append h new, fun _ _ _ h => h, fun h => h, fun h => h⟩
  refine ⟨hg, hpaths, hids, ?_, ?_, fun row hrow => ?_, hs.preview, fun other hother => ?_,
    fun hcompleted => ?_⟩
  · rw [List.filterMap_append, ← hs.items]
  · rw [List.map_append, ← hs.members]
  · rcases List.mem_append.mp hrow with hrow | hrow
    · exact (hs.rows row hrow).grown hg
    · exact (hnew row hrow).grown hg
  · exact (hs.executions other hother).grown hg
  · obtain ⟨hmanifest, htaken⟩ := hs.complete hcompleted
    exact ⟨hmanifest, fun a ha => hg.taken _ (htaken a ha)⟩

/-! ## Each step -/

theorem sound_deliver (hs : Sound setup m s) : Sound setup m (deliver setup s) := by
  have hadd : ∀ execution : Execution Id, execution.Sound setup m s →
      Sound setup m { s with executions := s.executions ++ [execution] } := by
    intro execution hexecution
    have hg : Grown setup m s { s with executions := s.executions ++ [execution] } :=
      .of_eq rfl rfl rfl
    refine { hs with
      rows := fun row hrow => (hs.rows row hrow).grown hg
      executions := fun other hother => ?_ }
    rcases List.mem_append.mp hother with hother | hother
    · exact (hs.executions other hother).grown hg
    · rw [List.mem_singleton.mp hother]
      exact hexecution.grown hg
  rw [deliver]
  split
  · exact hs
  split
  · exact hs
  split
  · exact hadd .refused trivial
  split
  · exact hs
  split
  · exact hadd .refused trivial
  · exact hadd (.begun _) fun path hpath => List.mem_map.mp hpath

omit [DecidableEq Id] in
/-- An entry that is the payload of nothing new. -/
theorem Progress.skip {before rest : List Entry} {entry : Entry} {reader : Reader}
    (h : Progress setup s before (entry :: rest) reader) (hmanifest : ¬ entry.IsManifest)
    (htaken : ∀ a, Payload before entry a → s.Taken a.path) :
    Progress setup s (before ++ [entry]) rest reader := by
  obtain ⟨hbundle, hreader, hdone⟩ := h
  refine ⟨?_, ?_, fun a ha => ?_⟩
  · rw [hbundle, List.append_assoc, List.singleton_append]
  · rw [scan_append_singleton, if_neg hmanifest, hreader]
  · exact (provided_append_singleton.mp ha).elim (hdone a) (htaken a)

theorem sound_unpack (hs : Sound setup m s) {i : ℕ} {evidenceItemId : Id}
    {existingPaths : List JsString} {reader : Reader} {entry : Entry} {rest : List Entry}
    (hexecution : Execution.Sound setup m s (.unpacking existingPaths reader (entry :: rest)))
    (h : unpack setup s i evidenceItemId existingPaths reader entry rest = some s') :
    Sound setup m s' := by
  obtain ⟨hexisting, before, hprogress⟩ := hexecution
  have hreader : reader = scan before := hprogress.2.1
  rw [unpack] at h
  split at h
  next hmanifest =>
    cases hparsed : entry.manifest with
    | none =>
      rw [hparsed] at h
      cases h
      exact hs.fail i
    | some manifest =>
      rw [hparsed] at h
      cases h
      refine hs.setExecution i ⟨hexisting, before ++ [entry], ?_, ?_, fun a ha => ?_⟩
      · rw [hprogress.1, List.append_assoc, List.singleton_append]
      · rw [scan_append_singleton, if_pos hmanifest, hparsed, hreader]
        rfl
      · rcases provided_append_singleton.mp ha with ha | ha
        · exact hprogress.2.2 a ha
        · exact absurd hmanifest ha.1
  next hmanifest =>
    split at h
    next hnone =>
      cases h
      refine hs.setExecution i ⟨hexisting, _, hprogress.skip hmanifest fun a ha => ?_⟩
      have hfound := ha.2
      rw [← hreader, hnone] at hfound
      cases hfound
    next artifact hartifact =>
      split at h
      next hskipped =>
        cases h
        refine hs.setExecution i ⟨hexisting, _, hprogress.skip hmanifest fun a ha => ?_⟩
        have hfound := ha.2
        rw [← hreader, hartifact] at hfound
        obtain rfl := Option.some.inj hfound
        exact hexisting _ hskipped
      next =>
        split at h
        · cases h
          exact hs.fail i
        split at h
        · cases h
        next hid =>
          cases h
          obtain ⟨hsource, hfresh⟩ := not_or.mp hid
          have hg : Grown setup m s (s.persistPreview evidenceItemId artifact) :=
            grown_persistPreview_of_fresh artifact hsource hfresh
          have hs' := hs.persistPreview hg fun heq => absurd heq hsource
          refine hs'.setExecution i ⟨fun path hpath => hexisting path hpath,
            ⟨before, entry, ⟨hmanifest, hreader ▸ hartifact⟩, hprogress.grown hg⟩, hsource, ?_⟩
          exact lookup_persistPreview_self _ _

omit [DecidableEq Id] in
/-- Paths and items are still unique after a row that brings its own. -/
theorem nodup_append_row {rows : List (ArtifactRow Id)} {a : Artifact} {id : Id}
    (hpaths : (rows.map ArtifactRow.path).Nodup)
    (hids : (rows.filterMap ArtifactRow.evidenceItemId).Nodup)
    (hfree : ∀ row ∈ rows, ¬ row.path = a.path ∧ ¬ row.evidenceItemId = some id) :
    ((rows ++ [State.fileRow a id]).map ArtifactRow.path).Nodup ∧
      ((rows ++ [State.fileRow a id]).filterMap ArtifactRow.evidenceItemId).Nodup := by
  rw [List.map_append, List.filterMap_append]
  refine ⟨hpaths.append (List.nodup_singleton _) (List.disjoint_singleton.mpr fun hmem => ?_),
    hids.append (List.nodup_singleton _) (List.disjoint_singleton.mpr fun hmem => ?_)⟩
  · obtain ⟨row, hrow, heq⟩ := List.mem_map.mp hmem
    exact (hfree row hrow).1 heq
  · obtain ⟨row, hrow, heq⟩ := List.mem_filterMap.mp hmem
    exact (hfree row hrow).2 heq

/-- The paths of a tree, and the file in it. -/
theorem sound_persistPayload (hs : Sound setup m s) (hm : Matched setup.bundle m) {i : ℕ}
    {existingPaths : List JsString} {reader : Reader} {rest : List Entry} {artifact : Artifact}
    {id : Id}
    (hexecution : Execution.Sound setup m s (.stored existingPaths reader rest artifact id)) :
    Sound setup m (persistPayload setup s i existingPaths reader rest artifact id) := by
  obtain ⟨hexisting, ⟨before, entry, hpayload, hprogress⟩, hid, hpreview⟩ := hexecution
  rw [persistPayload]
  dsimp only
  split
  next => exact hs.fail i
  next hfree =>
    simp only [not_exists, not_and, not_or] at hfree
    obtain ⟨taken, hsub, htaken⟩ := UniqueRows.insertAll_eq_append ArtifactRow.path s.rows
      ((directories artifact.path).map State.directoryRow)
    have hnodup := UniqueRows.nodup_map_insertAll ArtifactRow.path hs.paths
      ((directories artifact.path).map State.directoryRow)
    rw [htaken] at hfree hnodup ⊢
    have hdirectory : ∀ row ∈ taken, ∃ path ∈ directories artifact.path,
        State.directoryRow path = row := fun row hrow => List.mem_map.mp (hsub.subset hrow)
    have hnone : ∀ {β : Type} (f : ArtifactRow Id → Option β),
        (∀ path, f (State.directoryRow path) = none) → taken.filterMap f = [] := by
      intro β f hf
      refine List.filterMap_eq_nil_iff.mpr fun row hrow => ?_
      obtain ⟨path, -, rfl⟩ := hdirectory row hrow
      exact hf path
    have hmem : artifact ∈ m.artifacts :=
      hm.known artifact ⟨before, entry, rest, hprogress.1, hpayload⟩
    have hids : ((s.rows ++ taken).filterMap ArtifactRow.evidenceItemId).Nodup := by
      rw [List.filterMap_append, hnone _ fun _ => rfl, List.append_nil]
      exact hs.ids
    obtain ⟨hpaths, hids⟩ := nodup_append_row hnodup hids hfree
    rw [List.append_assoc] at hpaths hids
    have hrows : ∀ row ∈ taken ++ [State.fileRow artifact id], RowSound setup m s row := by
      intro row hrow
      rcases List.mem_append.mp hrow with hrow | hrow
      · obtain ⟨path, hpath, rfl⟩ := hdirectory row hrow
        refine .directory path rfl fun a ha heq => ?_
        -- the artifact has had its payload, so its path was taken
        have htakenPath : s.Taken a.path :=
          hprogress.2.2 a (hm.files before entry rest artifact hprogress.1 hpayload a ha
            (heq ▸ hpath))
        obtain ⟨old, hold, holdPath⟩ := htakenPath
        rw [List.map_append, List.nodup_append] at hnodup
        exact hnodup.2.2 _ (List.mem_map_of_mem hold) _ (List.mem_map_of_mem hrow)
          (holdPath.trans heq)
      · rw [List.mem_singleton.mp hrow]
        exact .payload artifact id hmem hpayload.payloadPath hid rfl hpreview
    obtain ⟨hg, hs'⟩ := hs.commit hpaths hids hrows
    have hitems : (taken ++ [State.fileRow artifact id]).filterMap (itemOf setup) =
        [⟨id, artifact.path, artifact.size, artifact.sha256⟩] := by
      have hitem : itemOf setup (State.fileRow artifact id) =
          some ⟨id, artifact.path, artifact.size, artifact.sha256⟩ := if_neg hid
      rw [List.filterMap_append, hnone _ fun _ => rfl, List.nil_append, List.filterMap_cons, hitem,
        List.filterMap_nil]
    rw [hitems, ← List.append_assoc] at hg hs'
    refine hs'.setExecution i ⟨fun path hpath => ?_, before ++ [entry],
      (hprogress.grown hg).skip hpayload.1 fun a ha => ?_⟩
    · rcases List.mem_cons.mp hpath with rfl | hpath
      · exact ⟨_, List.mem_append_right _ (List.mem_singleton_self _), rfl⟩
      · exact hg.taken _ (hexisting path hpath)
    · obtain rfl : a = artifact := Option.some.inj (ha.2.symm.trans hpayload.2)
      exact ⟨_, List.mem_append_right _ (List.mem_singleton_self _), rfl⟩

theorem sound_persistListed (hs : Sound setup m s) {i : ℕ} {existingPaths : List JsString}
    {manifest : Manifest} {rest : List Artifact} {artifact : Artifact}
    (hexecution : Execution.Sound setup m s (.previewed existingPaths manifest rest artifact)) :
    Sound setup m (persistListed setup s i existingPaths manifest rest artifact) := by
  obtain ⟨hexisting, hmanifest, hrest, hdone, hsource⟩ := hexecution
  obtain ⟨hmem, hpath⟩ := hrest artifact List.mem_cons_self
  rw [persistListed]
  split
  next => exact hs.fail i
  next hfree =>
    simp only [not_exists, not_and, not_or] at hfree
    obtain ⟨hpaths, hids⟩ := nodup_append_row hs.paths hs.ids hfree
    have hrows : ∀ row ∈ [State.fileRow artifact setup.sourceEvidenceItemId],
        RowSound setup m s row := by
      intro row hrow
      rw [List.mem_singleton.mp hrow]
      exact .listed artifact hmem hpath rfl hsource
    obtain ⟨hg, hs'⟩ := hs.commit hpaths hids hrows
    have hitem :
        [State.fileRow artifact setup.sourceEvidenceItemId].filterMap (itemOf setup) = [] := by
      have hnone : itemOf setup (State.fileRow artifact setup.sourceEvidenceItemId) = none :=
        if_pos rfl
      rw [List.filterMap_cons, hnone, List.filterMap_nil]
    rw [hitem, List.map_nil, List.append_nil, List.append_nil] at hg hs'
    refine hs'.setExecution i ⟨fun path hpath => hg.taken _ (hexisting path hpath), hmanifest,
      fun b hb => hrest b (List.mem_cons_of_mem _ hb), fun b hb => ?_⟩
    rcases hdone b hb with hb | htaken
    · rcases List.mem_cons.mp hb with rfl | hb
      · exact .inr ⟨_, List.mem_append_right _ (List.mem_singleton_self _), rfl⟩
      · exact .inl hb
    · exact .inr (hg.taken _ htaken)

/-- An execution takes its next step. -/
theorem sound_next (hs : Sound setup m s) (hm : Matched setup.bundle m)
    (hmanifest : ∀ manifest, (scan setup.bundle).manifest = some manifest → manifest = m) {i : ℕ}
    {evidenceItemId : Id} {execution : Execution Id} (hexecution : execution.Sound setup m s)
    (h : next setup s i evidenceItemId execution = some s') : Sound setup m s' := by
  cases execution with
  | begun existingPaths =>
    cases h
    have hunpacking :
        Execution.Sound setup m s (.unpacking existingPaths ⟨none, []⟩ setup.bundle) :=
      ⟨hexecution, [], rfl, rfl, fun a ha => absurd ha not_provided_nil⟩
    exact (hs.setExecution i hunpacking).setStatus (by rintro ⟨⟩)
  | refused =>
    cases h
    exact hs.fail i
  | unpacking existingPaths reader rest =>
    cases rest with
    | cons entry rest => exact sound_unpack hs hexecution h
    | nil =>
      obtain ⟨hexisting, before, hbundle, hreader, hdone⟩ := hexecution
      rw [List.append_nil] at hbundle
      rw [next] at h
      split at h
      next =>
        cases h
        exact hs.fail i
      next manifest hread =>
        cases h
        obtain rfl : manifest = m := hmanifest manifest (by rw [hbundle, ← hreader, hread])
        refine hs.setExecution i ⟨hexisting, rfl, fun a ha => ?_, fun a ha => ?_⟩
        · obtain ⟨ha, hpath⟩ := List.mem_filter.mp ha
          exact ⟨ha, of_decide_eq_true hpath⟩
        · by_cases hpath : a.payloadPath = none
          · exact .inl (List.mem_filter.mpr ⟨ha, decide_eq_true hpath⟩)
          · exact .inr (hdone a (hbundle ▸ hm.provided a ha hpath))
  | stored existingPaths reader rest artifact id =>
    cases h
    exact sound_persistPayload hs hm hexecution
  | listing existingPaths manifest rest =>
    obtain ⟨hexisting, rfl, hrest, hdone⟩ := hexecution
    cases rest with
    | nil =>
      cases h
      have htaken : ∀ a ∈ manifest.artifacts, s.Taken a.path :=
        fun a ha => (hdone a ha).resolve_left List.not_mem_nil
      have hg : Grown setup manifest s { s with manifest := some manifest } :=
        ⟨fun _ h => h, fun _ _ _ h => h, fun h => h, fun _ => rfl⟩
      have hs' : Sound setup manifest { s with manifest := some manifest } :=
        { hs with
          rows := fun row hrow => (hs.rows row hrow).grown hg
          executions := fun other hother => (hs.executions other hother).grown hg
          complete := fun _ => ⟨rfl, htaken⟩ }
      exact hs'.setExecution i ⟨rfl, htaken⟩
    | cons artifact rest =>
      obtain ⟨hmem, hpath⟩ := hrest artifact List.mem_cons_self
      rw [next] at h
      split at h
      next hskipped =>
        cases h
        refine hs.setExecution i ⟨hexisting, rfl, fun b hb => hrest b (List.mem_cons_of_mem _ hb),
          fun b hb => ?_⟩
        rcases hdone b hb with hb | htaken
        · rcases List.mem_cons.mp hb with rfl | hb
          · exact .inr (hexisting _ hskipped)
          · exact .inl hb
        · exact .inr htaken
      next =>
        cases h
        have hg : Grown setup manifest s (s.persistPreview setup.sourceEvidenceItemId artifact) :=
          grown_persistPreview_source artifact
        have hs' := hs.persistPreview hg fun _ => ⟨hmem, hpath⟩
        refine hs'.setExecution i ⟨hexisting, rfl, hrest, hdone, ?_⟩
        rw [lookup_persistPreview_self]
        rfl
  | previewed existingPaths manifest rest artifact =>
    cases h
    exact sound_persistListed hs hexecution
  | written =>
    cases h
    have hs' := hs.setExecution i (show Execution.Sound setup m s .ended from trivial)
    exact
      { hs' with
        rows := fun row hrow => (hs'.rows row hrow).grown (.of_eq rfl rfl rfl)
        executions := fun other hother => (hs'.executions other hother).grown (.of_eq rfl rfl rfl)
        complete := fun _ => hexecution }
  | ended => cases h

/-- **Every event keeps what holds during a run.** -/
theorem sound_step (hm : Matched setup.bundle m)
    (hmanifest : ∀ manifest, (scan setup.bundle).manifest = some manifest → manifest = m)
    {e : Event Id} (hs : Sound setup m s) (h : step setup s e = some s') : Sound setup m s' := by
  cases e with
  | deliver =>
    cases h
    exact sound_deliver hs
  | next i evidenceItemId =>
    obtain ⟨execution, hi, h⟩ := Option.bind_eq_some_iff.mp h
    exact sound_next hs hm hmanifest (hs.executions execution (List.mem_of_getElem? hi)) h
  | fail i =>
    obtain ⟨-, h⟩ := Option.ite_none_right_eq_some.mp h
    cases h
    exact hs.fail i
  | kill i =>
    obtain ⟨-, h⟩ := Option.ite_none_right_eq_some.mp h
    cases h
    exact hs.setExecution i trivial
  | uploaded | failed =>
    cases h
    exact hs.setStatus (by rintro ⟨⟩)
  | scan malwareStatus =>
    cases h
    have hg : Grown setup m s { s with malwareStatus := malwareStatus } := .of_eq rfl rfl rfl
    exact
      { hs with
        rows := fun row hrow => (hs.rows row hrow).grown hg
        executions := fun other hother => (hs.executions other hother).grown hg }

/-! ## What is complete -/

/-- The row under the path of an artifact that has one. -/
theorem Sound.row (hs : Sound setup m s) (hm : Matched setup.bundle m) {a : Artifact}
    (ha : a ∈ m.artifacts) {row : ArtifactRow Id} (hrow : row ∈ s.rows)
    (hpath : row.path = a.path) :
    (a.payloadPath ≠ none ∧ ∃ id ≠ setup.sourceEvidenceItemId, row = State.fileRow a id ∧
      s.previews.lookup id = some a.preview) ∨
    (a.payloadPath = none ∧ row = State.fileRow a setup.sourceEvidenceItemId ∧
      (s.previews.lookup setup.sourceEvidenceItemId).isSome) := by
  cases hs.rows row hrow with
  | payload b id hb hpayload hid hfile hpreview =>
    rw [hfile] at hpath
    obtain rfl := hm.paths b hb a ha hpath
    exact .inl ⟨hpayload, id, hid, hfile, hpreview⟩
  | listed b hb hpayload hfile hpreview =>
    rw [hfile] at hpath
    obtain rfl := hm.paths b hb a ha hpath
    exact .inr ⟨hpayload, hfile, hpreview⟩
  | directory path hdirectory hfree =>
    rw [hdirectory] at hpath
    exact absurd hpath.symm (hfree a ha)

/-- Only one artifact without payload has a row. -/
theorem Sound.listed_eq (hs : Sound setup m s) (hm : Matched setup.bundle m)
    (htaken : ∀ a ∈ m.artifacts, s.Taken a.path) {a b : Artifact} (ha : a ∈ m.artifacts)
    (hb : b ∈ m.artifacts) (hapath : a.payloadPath = none) (hbpath : b.payloadPath = none) :
    a = b := by
  have hsource : ∀ c ∈ m.artifacts, c.payloadPath = none →
      ∃ row ∈ s.rows, row.path = c.path ∧
        row.evidenceItemId = some setup.sourceEvidenceItemId := by
    intro c hc hpath
    obtain ⟨row, hrow, hrowPath⟩ := htaken c hc
    rcases hs.row hm hc hrow hrowPath with ⟨hpayload, -⟩ | ⟨-, hfile, -⟩
    · exact absurd hpath hpayload
    · exact ⟨row, hrow, hrowPath, by rw [hfile]; rfl⟩
  obtain ⟨row, hrow, hrowPath, hrowId⟩ := hsource a ha hapath
  obtain ⟨row', hrow', hrowPath', hrowId'⟩ := hsource b hb hbpath
  have heq : row = row' := UniqueRows.eq_of_nodup_filterMap hs.ids hrow hrow' hrowId hrowId'
  exact hm.paths a ha b hb (hrowPath.symm.trans ((congrArg _ heq).trans hrowPath'))

theorem Sound.hasRow (hs : Sound setup m s) (hm : Matched setup.bundle m)
    (htaken : ∀ a ∈ m.artifacts, s.Taken a.path) {a : Artifact} (ha : a ∈ m.artifacts) :
    HasRow s a := by
  obtain ⟨row, hrow, hpath⟩ := htaken a ha
  refine ⟨hpath ▸ UniqueRows.countP_key_eq_one ArtifactRow.path hs.paths hrow,
    fun other hother heq => ?_⟩
  rcases hs.row hm ha hother heq with ⟨-, id, -, rfl, hpreview⟩ | ⟨hnone, rfl, hpreview⟩
  · exact ⟨rfl, rfl, rfl, id, rfl, hpreview⟩
  · obtain ⟨preview, hlookup⟩ := Option.isSome_iff_exists.mp hpreview
    obtain ⟨b, hb, hbnone, rfl⟩ := hs.preview preview hlookup
    obtain rfl := hs.listed_eq hm htaken ha hb hnone hbnone
    exact ⟨rfl, rfl, rfl, _, rfl, hlookup⟩

theorem itemOf_eq_some {row : ArtifactRow Id} {item : Item Id} (h : itemOf setup row = some item) :
    item.sourcePath = row.path ∧ row.evidenceItemId = some item.id ∧
      item.id ≠ setup.sourceEvidenceItemId := by
  obtain ⟨id, hid, h⟩ := Option.bind_eq_some_iff.mp h
  obtain ⟨hne, h⟩ := Option.ite_none_left_eq_some.mp h
  cases h
  exact ⟨rfl, hid, hne⟩

/-- Items are told apart by their ids. -/
theorem Sound.itemIds (hs : Sound setup m s) : (s.items.map Item.id).Nodup := by
  have heq : s.items.map Item.id = (s.rows.filterMap ArtifactRow.evidenceItemId).filter
      fun id => id ≠ setup.sourceEvidenceItemId := by
    rw [hs.items, List.map_filterMap, List.filter_filterMap]
    refine List.filterMap_congr fun row _ => ?_
    rw [itemOf]
    cases row.evidenceItemId with
    | none => rfl
    | some id => by_cases hid : id = setup.sourceEvidenceItemId <;> simp [hid, Option.filter]
  rw [heq]
  exact hs.ids.filter _

theorem Sound.hasItem (hs : Sound setup m s) (hm : Matched setup.bundle m) {a : Artifact}
    (ha : a ∈ m.artifacts) (htaken : s.Taken a.path) (hpayload : a.payloadPath ≠ none) :
    HasItem setup s a := by
  have hrow : ∀ row ∈ s.rows, row.path = a.path → ∃ id, itemOf setup row =
      some ⟨id, a.path, a.size, a.sha256⟩ := by
    intro row hrow hpath
    rcases hs.row hm ha hrow hpath with ⟨-, id, hid, rfl, -⟩ | ⟨hnone, -⟩
    · exact ⟨id, if_neg hid⟩
    · exact absurd hnone hpayload
  refine ⟨?_, fun item hitem hitemPath => ?_⟩
  · obtain ⟨row, hmem, hrowPath⟩ := htaken
    rw [hs.items, List.countP_filterMap]
    -- the items under the path are those of the rows under it
    refine Eq.trans (List.countP_congr fun other hother => ?_)
      (hrowPath ▸ UniqueRows.countP_key_eq_one ArtifactRow.path hs.paths hmem)
    by_cases hotherPath : other.path = a.path
    · obtain ⟨id, hitem⟩ := hrow other hother hotherPath
      simp [hitem, hotherPath]
    · cases hitem : itemOf setup other with
      | none => simp [hotherPath]
      | some item => simp [(itemOf_eq_some hitem).1, hotherPath]
  · have hitem' := hitem
    rw [hs.items] at hitem'
    obtain ⟨row, hmem, hitemOf⟩ := List.mem_filterMap.mp hitem'
    obtain ⟨id, hitemOf'⟩ := hrow row hmem ((itemOf_eq_some hitemOf).1.symm.trans hitemPath)
    obtain rfl := Option.some.inj (hitemOf'.symm.trans hitemOf)
    refine ⟨rfl, rfl, ?_⟩
    rw [hs.members, List.filter_map]
    have hone := UniqueRows.filter_key_eq_singleton Item.id hs.itemIds hitem
    exact congrArg (List.map _) hone

/-- **What is complete is unpacked.** -/
theorem Sound.exact (hs : Sound setup m s) (hm : Matched setup.bundle m) : Exact setup s := by
  intro hcompleted
  obtain ⟨hmanifest, htaken⟩ := hs.complete hcompleted
  refine ⟨m, hmanifest, fun a ha => hs.hasRow hm htaken ha,
    fun a ha hpayload => hs.hasItem hm ha (htaken a ha) hpayload, fun item hitem => ?_⟩
  rw [hs.items] at hitem
  obtain ⟨row, hrow, hitemOf⟩ := List.mem_filterMap.mp hitem
  obtain ⟨hpath, hid, hne⟩ := itemOf_eq_some hitemOf
  cases hs.rows row hrow with
  | payload a id ha hpayload _ hfile _ => exact ⟨a, ha, hpayload, by rw [hpath, hfile]; rfl⟩
  | listed a _ _ hfile _ =>
    rw [hfile] at hid
    exact absurd (Option.some.inj hid).symm hne
  | directory path hdirectory _ =>
    rw [hdirectory] at hid
    cases hid

end Invariant

/-! ## Runs -/

/-- An import that was uploaded. -/
structure Initial (s : State Id) : Prop where
  status : s.status = .uploaded
  rows : s.rows = []
  items : s.items = []
  members : s.members = []
  previews : s.previews = []
  executions : s.executions = []

variable [DecidableEq Id] {setup : Setup Id} {s t : State Id}

theorem Initial.sound (hs : Initial s) (m : Manifest) : Sound setup m s where
  paths := by simp [hs.rows]
  ids := by simp [hs.rows]
  items := by simp [hs.rows, hs.items]
  members := by simp [hs.items, hs.members]
  rows := by simp [hs.rows]
  preview := by simp [hs.previews]
  executions := by simp [hs.executions]
  complete := by simp [hs.status]

/-- **An import that is complete is unpacked**, after any run over a tar whose artifacts are
matched. -/
theorem unpacked_of_matched {es : List (Event Id)} (hs : Initial s)
    (hm : ∀ manifest, (scan setup.bundle).manifest = some manifest →
      Matched setup.bundle manifest)
    (h : run (step setup) s es = some t) : Exact setup t := by
  cases hmanifest : (scan setup.bundle).manifest with
  | none =>
    -- nothing is ever unpacked
    have hnone : Matched setup.bundle ⟨[]⟩ :=
      { paths := fun _ h => (List.not_mem_nil h).elim
        provided := fun _ h => (List.not_mem_nil h).elim
        known := fun a ha => absurd ha (not_provided_of_manifest_eq_none _ hmanifest)
        files := fun _ _ _ _ _ _ _ h => (List.not_mem_nil h).elim }
    have hunread : ∀ manifest, (scan setup.bundle).manifest = some manifest → manifest = ⟨[]⟩ := by
      rw [hmanifest]
      rintro _ ⟨⟩
    have ht : Sound setup ⟨[]⟩ t :=
      run_induction (fun _ _ _ => sound_step hnone hunread) (hs.sound ⟨[]⟩) h
    exact ht.exact hnone
  | some m =>
    have hread : ∀ manifest, (scan setup.bundle).manifest = some manifest → manifest = m := by
      rw [hmanifest]
      rintro _ ⟨⟩
      rfl
    have ht : Sound setup m t :=
      run_induction (fun _ _ _ => sound_step (hm m hmanifest) hread) (hs.sound m) h
    exact ht.exact (hm m hmanifest)

/-! ## Tars whose artifacts are not matched -/

/-- An import that was uploaded and scanned. -/
def uploadedImport : State ℕ where
  status := .uploaded
  blob := true
  malwareStatus := .clean
  rows := []
  items := []
  members := []
  previews := []
  manifest := none
  executions := []

theorem uploadedImport_initial : Initial uploadedImport := ⟨rfl, rfl, rfl, rfl, rfl, rfl⟩

/-- An artifact of three bytes. -/
def artifactAt (path payloadPath : String) : Artifact :=
  ⟨js path, 3, js "ab12", some (js payloadPath), js "[]"⟩

/-- The entry of a manifest. -/
def manifestEntry (artifacts : List Artifact) : Entry :=
  ⟨js "manifest.json", 90, js "c0de", some ⟨artifacts⟩⟩

/-- The entry of a payload of three bytes. -/
def payloadEntry (name : String) : Entry := ⟨js name, 3, js "ab12", none⟩

/-- A tar, for the source `0`. -/
def tar (bundle : List Entry) : Setup ℕ := ⟨true, 0, bundle⟩

/-- An execution takes its next steps, and draws the ids from some number on. -/
def steps (i first : ℕ) (n : ℕ) : List (Event ℕ) :=
  .deliver :: (List.range n).map fun k => .next i (first + k)

/-- A tar with one artifact and its payload. -/
def plainTar : Setup ℕ := tar [manifestEntry [artifactAt "a/b" "p"], payloadEntry "p"]

theorem plainTar_matched (manifest : Manifest)
    (h : (scan plainTar.bundle).manifest = some manifest) : Matched plainTar.bundle manifest := by
  obtain rfl : (⟨[artifactAt "a/b" "p"]⟩ : Manifest) = manifest := Option.some.inj h
  have hpayload : ∀ a, Payload [manifestEntry [artifactAt "a/b" "p"]] (payloadEntry "p") a ↔
      a = artifactAt "a/b" "p" := by
    intro a
    refine ⟨?_, ?_⟩
    · exact fun ha => (Option.some.inj ha.2).symm
    · rintro rfl
      exact ⟨by decide, rfl⟩
  have hprovided : ∀ a, Provided plainTar.bundle a ↔ a = artifactAt "a/b" "p" := by
    intro a
    have hbundle : plainTar.bundle =
        [] ++ [manifestEntry [artifactAt "a/b" "p"]] ++ [payloadEntry "p"] := rfl
    rw [hbundle, provided_append_singleton, provided_append_singleton, List.nil_append, hpayload]
    refine or_iff_right ?_
    rintro (hnil | hmanifest)
    · exact not_provided_nil hnil
    · exact hmanifest.1 rfl
  refine ⟨fun a ha b hb _ => ?_, fun a ha _ => ?_, fun a ha => ?_, ?_⟩
  · rw [List.mem_singleton.mp ha, List.mem_singleton.mp hb]
  · exact (hprovided a).mpr (List.mem_singleton.mp ha)
  · exact List.mem_singleton.mpr ((hprovided a).mp ha)
  · intro before entry after b hbundle hb a ha hdirectory
    obtain rfl := (hprovided b).mp ⟨before, entry, after, hbundle, hb⟩
    rw [List.mem_singleton.mp ha] at hdirectory
    exact absurd hdirectory (by decide)

/-- A second execution overlaps with the first, and fails. -/
theorem unpacked_plainTar : ∃ t, run (step plainTar) uploadedImport
      (steps 0 1 3 ++ steps 1 8 3 ++ [.next 1 12, .next 0 13] ++ steps 2 20 6) = some t ∧
    t.status = .completed ∧ Exact plainTar t := by
  obtain ⟨t, hrun, hcompleted⟩ : ∃ t, run (step plainTar) uploadedImport
      (steps 0 1 3 ++ steps 1 8 3 ++ [.next 1 12, .next 0 13] ++ steps 2 20 6) = some t ∧
      t.status = .completed := ⟨_, rfl, rfl⟩
  exact ⟨t, hrun, hcompleted, unpacked_of_matched uploadedImport_initial plainTar_matched hrun⟩

/-- An import is complete though a payload is missing, comes before the manifest, or is that of two
artifacts; and though the path of an artifact is only a directory, after an execution that has
failed. -/
theorem not_exact :
    (∃ t, run (step (tar [manifestEntry [artifactAt "a" "p"]])) uploadedImport (steps 0 1 5) =
      some t ∧ ¬ Exact (tar [manifestEntry [artifactAt "a" "p"]]) t) ∧
    (∃ t, run (step (tar [payloadEntry "p", manifestEntry [artifactAt "a" "p"]])) uploadedImport
        (steps 0 1 6) = some t ∧
      ¬ Exact (tar [payloadEntry "p", manifestEntry [artifactAt "a" "p"]]) t) ∧
    (∃ t, run (step (tar [manifestEntry [artifactAt "a" "p", artifactAt "b" "p"],
        payloadEntry "p"])) uploadedImport (steps 0 1 7) = some t ∧
      ¬ Exact (tar [manifestEntry [artifactAt "a" "p", artifactAt "b" "p"], payloadEntry "p"]) t) ∧
    ∃ t, run (step (tar [manifestEntry [artifactAt "a" "p", artifactAt "a/b" "q"],
        payloadEntry "q", payloadEntry "p"])) uploadedImport (steps 0 1 6 ++ steps 1 9 7) = some t ∧
      ¬ Exact (tar [manifestEntry [artifactAt "a" "p", artifactAt "a/b" "q"], payloadEntry "q",
        payloadEntry "p"]) t := by
  refine ⟨⟨_, rfl, fun h => ?_⟩, ⟨_, rfl, fun h => ?_⟩, ⟨_, rfl, fun h => ?_⟩,
    ⟨_, rfl, fun h => ?_⟩⟩
  · obtain ⟨_, ⟨⟩, hunpacked⟩ := h rfl
    exact absurd (hunpacked.rows _ List.mem_cons_self).one (by decide)
  · obtain ⟨_, ⟨⟩, hunpacked⟩ := h rfl
    exact absurd (hunpacked.rows _ List.mem_cons_self).one (by decide)
  · obtain ⟨_, ⟨⟩, hunpacked⟩ := h rfl
    exact absurd (hunpacked.rows _ List.mem_cons_self).one (by decide)
  · obtain ⟨_, ⟨⟩, hunpacked⟩ := h rfl
    have hrow := (hunpacked.rows _ List.mem_cons_self).data _ List.mem_cons_self rfl
    cases hrow.1

end AegCloudDfir.Processing.ImportAnalyze
