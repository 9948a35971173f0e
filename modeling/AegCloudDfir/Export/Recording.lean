import AegCloudDfir.Evidence.Merkle
import AegCloudDfir.Lib.Transition
import AegCloudDfir.Lib.UniqueRows

/-!
# The record of an export

`processExportRun` of `apps/worker/src/processors/export-run.ts` uploads the parts of an export
one after another, then the manifest, and only then writes down in one transaction what it has
uploaded, together with the status `ready`. It goes on unless the export was ready, failed or
cancelled when it began, and never looks at the status again. The keys of the objects depend on
nothing but the export and the number of the part, so every execution for an export uploads to the
same keys, while the rows of parts that are recorded already are left as they are.

The machine is one export. Any number of executions may be under way, and any of them may be
killed anywhere. What an execution uploads is up to it: a manifest holds the time it was made at.
Nothing in the repository sets the status `cancelled`, which the worker asks for; here anyone may
set it at any time.

* `Described` — a ready export describes its objects, and was never cancelled.
* `described_iff` — that is so throughout exactly the runs in which an execution that completes
  finds its own objects and no rows but its own, and no others replace the objects afterwards.
* `clear_of_serial` — it is enough that an execution starts, and the export is cancelled, only
  when no execution is under way.
-/

namespace AegCloudDfir.Export.Recording

open Transition
open Evidence (Buffer toHex)

/-! ## Objects -/

/-- `ExportKind` -/
inductive ExportKind : Type where
  | native
  | csv
  | pst
  deriving DecidableEq

/-- `archiveExtensionFor` -/
def archiveExtensionFor : ExportKind → JsString
  | .pst => js "pst"
  | .csv => js "csv"
  | .native => js "zip"

/-- `derivativeTypeFor` -/
def derivativeTypeFor : ExportKind → JsString
  | .pst => js "pst-archive"
  | .csv => js "export-csv"
  | .native => js "archive"

/-- `archivePartFilename` -/
def archivePartFilename (kind : ExportKind) (partNumber : ℕ) : JsString :=
  match kind with
  | .csv => js "export.csv"
  | _ => js "export-part" ++ paddedDecimal 3 partNumber ++ js "." ++ archiveExtensionFor kind

/-- What `derivativeKey` makes a key from, besides the tenant and the export. -/
structure ObjectKey where
  derivativeType : JsString
  version : ℕ
  filename : JsString
  deriving DecidableEq

/-- The key of a part. -/
def partKey (kind : ExportKind) (partNumber : ℕ) : ObjectKey :=
  ⟨derivativeTypeFor kind, partNumber, archivePartFilename kind partNumber⟩

/-- The key of the manifest. -/
def manifestKey : ObjectKey := ⟨js "export-manifest", 1, js "manifest.json"⟩

theorem partKey_inj {kind : ExportKind} {n m : ℕ} : partKey kind n = partKey kind m ↔ n = m :=
  ⟨congrArg ObjectKey.version, congrArg (partKey kind)⟩

theorem partKey_ne_manifestKey {kind : ExportKind} {n : ℕ} : partKey kind n ≠ manifestKey := by
  have htype : derivativeTypeFor kind ≠ js "export-manifest" := by cases kind <;> decide
  exact fun h => htype (congrArg ObjectKey.derivativeType h)

/-! ## Rows -/

/-- A row of `export_parts`. -/
structure ExportPart where
  partNumber : ℕ
  objectKey : ObjectKey
  sha256 : JsString
  sizeBytes : ℕ
  deriving DecidableEq

/-- `ExportStatus` -/
inductive ExportStatus : Type where
  | queued
  | running
  | verifying
  | ready
  | failed
  | cancelled
  deriving DecidableEq

/-- An execution of the job. -/
inductive Execution : Type where
  /-- the export is neither ready nor failed nor cancelled -/
  | found
  /-- with the parts uploaded so far -/
  | exporting (parts : List ExportPart)
  /-- the manifest is uploaded too -/
  | exported (parts : List ExportPart) (manifestSha256 : JsString)
  /-- the export was marked as ready -/
  | completed (parts : List ExportPart) (manifestSha256 : JsString)
  | over
  deriving DecidableEq

/-- The export, its objects, and what is under way. -/
structure State where
  status : ExportStatus
  /-- the rows of `export_parts`, unique in their number -/
  parts : List ExportPart
  manifestSha256 : JsString
  objects : ObjectKey → Option Buffer
  executions : List Execution
  /-- which execution has marked the export as ready last; not a column -/
  readyBy : Option ℕ
  /-- whether the export was ever cancelled; not a column -/
  cancelled : Bool

/-- An export that was created. -/
def State.queued : State := ⟨.queued, [], [], fun _ => none, [], none, false⟩

section Defs

variable (sha256 : Buffer → Buffer) (kind : ExportKind)

/-! ## What an execution does -/

/-- `putDerivative` -/
def State.putDerivative (s : State) (key : ObjectKey) (bytes : Buffer) : State :=
  { s with objects := Function.update s.objects key (some bytes) }

/-- The next part is uploaded, and `rotatePart` keeps its digest. -/
def State.uploadPart (s : State) (i : ℕ) (parts : List ExportPart) (bytes : Buffer) : State :=
  let partNumber := parts.length + 1
  let part : ExportPart :=
    ⟨partNumber, partKey kind partNumber, toHex (sha256 bytes), bytes.length⟩
  { s.putDerivative (partKey kind partNumber) bytes with
    executions := s.executions.set i (.exporting (parts ++ [part])) }

/-- The manifest is uploaded. -/
def State.uploadManifest (s : State) (i : ℕ) (parts : List ExportPart) (bytes : Buffer) : State :=
  { s.putDerivative manifestKey bytes with
    executions := s.executions.set i (.exported parts (toHex (sha256 bytes))) }

/-- The last transaction. It passes through the status `verifying`. -/
def State.complete (s : State) (i : ℕ) (parts : List ExportPart) (manifestSha256 : JsString) :
    State :=
  { s with
    status := .ready
    parts := UniqueRows.insertAll ExportPart.partNumber s.parts parts
    manifestSha256 := manifestSha256
    executions := s.executions.set i (.completed parts manifestSha256)
    readyBy := some i }

/-- The transaction of the `catch`. -/
def State.fail (s : State) (i : ℕ) : State :=
  { s with status := .failed, executions := s.executions.set i .over }

/-- What can happen next. -/
inductive Event : Type where
  /-- a job is delivered, for the first time or again -/
  | look
  | start (i : ℕ)
  | uploadPart (i : ℕ) (bytes : Buffer)
  | uploadManifest (i : ℕ) (bytes : Buffer)
  | complete (i : ℕ)
  | fail (i : ℕ)
  /-- the worker is killed -/
  | crash (i : ℕ)
  | cancel
  deriving DecidableEq

/-- What an event does. -/
def step (s : State) : Event → Option State
  | .look =>
    if s.status ∈ [ExportStatus.ready, .failed, .cancelled] then some s
    else some { s with executions := s.executions ++ [.found] }
  | .start i =>
    match s.executions[i]? with
    | some .found =>
      some { s with status := .running, executions := s.executions.set i (.exporting []) }
    | _ => none
  | .uploadPart i bytes =>
    match s.executions[i]? with
    | some (.exporting parts) =>
      -- a table is a single file
      if kind = .csv ∧ parts ≠ [] then none else some (s.uploadPart sha256 kind i parts bytes)
    | _ => none
  | .uploadManifest i bytes =>
    match s.executions[i]? with
    | some (.exporting parts) =>
      if parts = [] then none else some (s.uploadManifest sha256 i parts bytes)
    | _ => none
  | .complete i =>
    match s.executions[i]? with
    | some (.exported parts manifestSha256) => some (s.complete i parts manifestSha256)
    | _ => none
  | .fail i =>
    match s.executions[i]? with
    | some (.exporting _) | some (.exported _ _) => some (s.fail i)
    | _ => none
  | .crash i =>
    match s.executions[i]? with
    | some .found | some (.exporting _) | some (.exported _ _) =>
      some { s with executions := s.executions.set i .over }
    | _ => none
  | .cancel => some { s with status := .cancelled, cancelled := true }

/-! ## What is asked for -/

/-- A part is what is stored under its key. -/
def Stored (objects : ObjectKey → Option Buffer) (part : ExportPart) : Prop :=
  ∃ bytes, objects part.objectKey = some bytes ∧ part.sha256 = toHex (sha256 bytes) ∧
    part.sizeBytes = bytes.length

/-- A digest is that of the manifest that is stored. -/
def ManifestStored (objects : ObjectKey → Option Buffer) (manifestSha256 : JsString) : Prop :=
  ∃ bytes, objects manifestKey = some bytes ∧ manifestSha256 = toHex (sha256 bytes)

/-- **The record is that of the objects**, and that of the execution that has completed. -/
structure Ready (s : State) : Prop where
  stored : ∀ part ∈ s.parts, Stored sha256 s.objects part
  manifest : ManifestStored sha256 s.objects s.manifestSha256
  own : ∃ i, s.readyBy = some i ∧
    s.executions[i]? = some (.completed s.parts s.manifestSha256)
  cancelled : s.cancelled = false

/-- A ready export describes itself. -/
def Described (s : State) : Prop := s.status = .ready → Ready sha256 s

/-- What is stored under the key is recorded as what it is, if the export is ready. -/
def Harmless (s : State) (key : ObjectKey) (bytes : Buffer) : Prop :=
  s.status = .ready →
    (∀ part ∈ s.parts, part.objectKey = key →
      part.sha256 = toHex (sha256 bytes) ∧ part.sizeBytes = bytes.length) ∧
    (key = manifestKey → s.manifestSha256 = toHex (sha256 bytes))

/-- An execution that completes finds the objects it has uploaded, no rows but its own, and an
export that was not cancelled; one that uploads something finds it recorded if the export is
ready. -/
def Clear (s : State) : Event → Prop
  | .uploadPart i bytes => ∀ parts, s.executions[i]? = some (.exporting parts) →
    Harmless sha256 s (partKey kind (parts.length + 1)) bytes
  | .uploadManifest i bytes => ∀ parts, s.executions[i]? = some (.exporting parts) →
    Harmless sha256 s manifestKey bytes
  | .complete i => ∀ parts manifestSha256,
    s.executions[i]? = some (.exported parts manifestSha256) →
      s.parts <+: parts ∧ (∀ part ∈ parts, Stored sha256 s.objects part) ∧
        ManifestStored sha256 s.objects manifestSha256 ∧ s.cancelled = false
  | _ => True

/-! ## The invariant -/

/-- The parts of an execution are numbered from 1 on. -/
def Numbered (parts : List ExportPart) : Prop :=
  parts.map ExportPart.partNumber = List.range' 1 parts.length ∧
    ∀ part ∈ parts, part.objectKey = partKey kind part.partNumber

/-- What an execution relies on. -/
def Execution.Sound : Execution → Prop
  | .exporting parts | .exported parts _ => Numbered kind parts
  | _ => True

/-- **The invariant.** -/
def Sound (s : State) : Prop := ∀ execution ∈ s.executions, execution.Sound kind

/-- What was completed stays so. -/
def Completed (s s' : State) : Prop :=
  ∀ (i : ℕ) parts manifestSha256,
    s.executions[i]? = some (.completed parts manifestSha256) →
      s'.executions[i]? = some (.completed parts manifestSha256)

/-- What an event does that changes no object and no record of a ready export. -/
structure Aside (s s' : State) : Prop where
  status : s'.status = .ready → s.status = .ready
  parts : s'.parts = s.parts
  manifestSha256 : s'.manifestSha256 = s.manifestSha256
  objects : s'.objects = s.objects
  readyBy : s'.readyBy = s.readyBy
  cancelled : s'.status = .ready → s'.cancelled = s.cancelled
  completed : Completed s s'

/-! ## One execution at a time -/

/-- An execution is under way. -/
def Execution.Live : Execution → Prop
  | .completed _ _ | .over => False
  | _ => True

instance Execution.Live.decidable : ∀ execution : Execution, Decidable execution.Live
  | .completed _ _ | .over => isFalse id
  | .found | .exporting _ | .exported _ _ => isTrue trivial

/-- A job is delivered, and the export is cancelled, only when no execution is under way. -/
def Serial (s : State) : Event → Prop
  | .look | .cancel => ∀ execution ∈ s.executions, ¬ execution.Live
  | _ => True

instance Serial.decidable (s : State) : ∀ e : Event, Decidable (Serial s e)
  | .look | .cancel =>
    inferInstanceAs (Decidable (∀ execution ∈ s.executions, ¬ execution.Live))
  | .start _ | .uploadPart _ _ | .uploadManifest _ _ | .complete _ | .fail _ | .crash _ =>
    isTrue trivial

/-- What an execution has uploaded is there. -/
def Execution.Holds (objects : ObjectKey → Option Buffer) : Execution → Prop
  | .exporting parts => Numbered kind parts ∧ ∀ part ∈ parts, Stored sha256 objects part
  | .exported parts manifestSha256 => (∀ part ∈ parts, Stored sha256 objects part) ∧
    ManifestStored sha256 objects manifestSha256
  | _ => True

/-- What an execution that is under way finds. -/
structure Undisturbed (s : State) (execution : Execution) : Prop where
  status : s.status ≠ .ready
  parts : s.parts = []
  cancelled : s.cancelled = false
  holds : execution.Holds sha256 kind s.objects

/-- Only the last execution may be under way, and it is not disturbed. -/
structure Orderly (s : State) : Prop where
  settled : s.parts ≠ [] ∨ s.cancelled = true → s.status = .ready ∨ s.status = .cancelled
  last : ∀ (i : ℕ) execution, s.executions[i]? = some execution → execution.Live →
    i + 1 = s.executions.length ∧ Undisturbed sha256 kind s execution

end Defs

section Proofs

variable {sha256 : Buffer → Buffer} {kind : ExportKind} {s s' : State}

/-! ### Steps -/

/-- An execution that moves was not completed. -/
theorem completed_set {i : ℕ} {execution next : Execution}
    (hexecution : s.executions[i]? = some execution)
    (hne : ∀ parts manifestSha256, execution ≠ .completed parts manifestSha256)
    (hs' : s'.executions = s.executions.set i next) : Completed s s' := by
  intro j parts manifestSha256 hj
  have hij : i ≠ j := by
    rintro rfl
    exact hne parts manifestSha256 (Option.some.inj (hexecution.symm.trans hj))
  rw [hs', List.getElem?_set_ne hij]
  exact hj

theorem sound_set {i : ℕ} {next : Execution} (hnext : next.Sound kind)
    (hs' : s'.executions = s.executions.set i next) (hs : Sound kind s) : Sound kind s' := by
  intro execution hmem
  rw [hs'] at hmem
  rcases List.mem_or_eq_of_mem_set hmem with hmem | rfl
  · exact hs execution hmem
  · exact hnext

theorem sound_over : Execution.over.Sound kind := trivial

/-- An execution that was under way is over. -/
theorem aside_over {i : ℕ} {execution : Execution}
    (hexecution : s.executions[i]? = some execution)
    (hne : ∀ parts manifestSha256, execution ≠ .completed parts manifestSha256)
    {status : ExportStatus} (hstatus : status = .ready → s.status = .ready) :
    Aside s { s with status := status, executions := s.executions.set i .over } :=
  ⟨hstatus, rfl, rfl, rfl, rfl, fun _ => rfl, completed_set hexecution hne rfl⟩

theorem Aside.described (h : Aside s s') (hs : Described sha256 s) : Described sha256 s' := by
  intro hready
  obtain ⟨hstored, hmanifest, ⟨i, hi, hown⟩, hcancelled⟩ := hs (h.status hready)
  refine ⟨?_, ?_, ⟨i, h.readyBy.trans hi, ?_⟩, (h.cancelled hready).trans hcancelled⟩
  · rw [h.parts, h.objects]
    exact hstored
  · rw [h.manifestSha256, h.objects]
    exact hmanifest
  · rw [h.parts, h.manifestSha256]
    exact h.completed i _ _ hown

/-- **What an event does**: it uploads something, completes the export, or does neither. -/
theorem step_cases {e : Event} (h : step sha256 kind s e = some s') :
    (∃ i parts bytes, e = .uploadPart i bytes ∧ s.executions[i]? = some (.exporting parts) ∧
      s' = s.uploadPart sha256 kind i parts bytes) ∨
    (∃ i parts bytes, e = .uploadManifest i bytes ∧ s.executions[i]? = some (.exporting parts) ∧
      s' = s.uploadManifest sha256 i parts bytes) ∨
    (∃ i parts manifestSha256, e = .complete i ∧
      s.executions[i]? = some (.exported parts manifestSha256) ∧
      s' = s.complete i parts manifestSha256) ∨
    (Clear sha256 kind s e ∧ Aside s s' ∧ (Sound kind s → Sound kind s')) := by
  cases e with
  | look =>
    refine .inr (.inr (.inr ⟨trivial, ?_⟩))
    simp only [step] at h
    split_ifs at h
    · cases h
      exact ⟨⟨id, rfl, rfl, rfl, rfl, fun _ => rfl, fun _ _ _ => id⟩, id⟩
    · cases h
      refine ⟨⟨id, rfl, rfl, rfl, rfl, fun _ => rfl, fun i parts manifestSha256 hi => ?_⟩, ?_⟩
      · rw [List.getElem?_append_left (List.getElem?_eq_some_iff.mp hi).1]
        exact hi
      · intro hs execution hexecution
        rcases List.mem_append.mp hexecution with hexecution | hexecution
        · exact hs execution hexecution
        · rw [List.mem_singleton.mp hexecution]
          trivial
  | start i =>
    refine .inr (.inr (.inr ⟨trivial, ?_⟩))
    simp only [step] at h
    split at h
    · next hexecution =>
      cases h
      refine ⟨⟨by rintro ⟨⟩, rfl, rfl, rfl, rfl, by rintro ⟨⟩,
        completed_set hexecution (by rintro _ _ ⟨⟩) rfl⟩, sound_set ?_ rfl⟩
      exact ⟨rfl, fun _ h => absurd h List.not_mem_nil⟩
    · cases h
  | uploadPart i bytes =>
    simp only [step] at h
    split at h
    · next parts hexecution =>
      split_ifs at h
      exact .inl ⟨i, parts, bytes, rfl, hexecution, (Option.some.inj h).symm⟩
    · cases h
  | uploadManifest i bytes =>
    simp only [step] at h
    split at h
    · next parts hexecution =>
      split_ifs at h
      exact .inr (.inl ⟨i, parts, bytes, rfl, hexecution, (Option.some.inj h).symm⟩)
    · cases h
  | complete i =>
    simp only [step] at h
    split at h
    · next parts manifestSha256 hexecution =>
      exact .inr (.inr (.inl ⟨i, parts, manifestSha256, rfl, hexecution,
        (Option.some.inj h).symm⟩))
    · cases h
  | fail i =>
    refine .inr (.inr (.inr ⟨trivial, ?_⟩))
    simp only [step] at h
    split at h
    · next hexecution =>
      cases h
      exact ⟨aside_over hexecution (by rintro _ _ ⟨⟩) (by rintro ⟨⟩), sound_set sound_over rfl⟩
    · next hexecution =>
      cases h
      exact ⟨aside_over hexecution (by rintro _ _ ⟨⟩) (by rintro ⟨⟩), sound_set sound_over rfl⟩
    · cases h
  | crash i =>
    refine .inr (.inr (.inr ⟨trivial, ?_⟩))
    simp only [step] at h
    split at h
    · next hexecution =>
      cases h
      exact ⟨aside_over hexecution (by rintro _ _ ⟨⟩) id, sound_set sound_over rfl⟩
    · next hexecution =>
      cases h
      exact ⟨aside_over hexecution (by rintro _ _ ⟨⟩) id, sound_set sound_over rfl⟩
    · next hexecution =>
      cases h
      exact ⟨aside_over hexecution (by rintro _ _ ⟨⟩) id, sound_set sound_over rfl⟩
    · cases h
  | cancel =>
    refine .inr (.inr (.inr ⟨trivial, ?_⟩))
    cases h
    exact ⟨⟨by rintro ⟨⟩, rfl, rfl, rfl, rfl, by rintro ⟨⟩, fun _ _ _ => id⟩, id⟩

/-! ### Uploading -/

theorem putDerivative_self {key : ObjectKey} {bytes : Buffer} :
    (s.putDerivative key bytes).objects key = some bytes := by
  simp only [State.putDerivative, Function.update_self]

theorem putDerivative_of_ne {key other : ObjectKey} {bytes : Buffer} (hne : other ≠ key) :
    (s.putDerivative key bytes).objects other = s.objects other := by
  simp only [State.putDerivative, ne_eq, hne, not_false_eq_true, Function.update_of_ne]

/-- **An upload** leaves the record right exactly if it is harmless. -/
theorem described_upload (hs : Described sha256 s) {key : ObjectKey} {bytes : Buffer}
    {executions : List Execution}
    (hcompleted : Completed s { s.putDerivative key bytes with executions := executions }) :
    Described sha256 { s.putDerivative key bytes with executions := executions } ↔
      Harmless sha256 s key bytes := by
  refine ⟨?_, ?_⟩
  · intro h hready
    obtain ⟨hstored, ⟨manifest, hmanifest, hsha⟩, -, -⟩ := h hready
    refine ⟨fun part hpart hkey => ?_, fun hkey => ?_⟩
    · obtain ⟨stored, hobject, hpartSha, hsize⟩ := hstored part hpart
      obtain rfl : bytes = stored := by
        rw [hkey] at hobject
        exact Option.some.inj (putDerivative_self.symm.trans hobject)
      exact ⟨hpartSha, hsize⟩
    · obtain rfl : bytes = manifest := by
        rw [← hkey] at hmanifest
        exact Option.some.inj (putDerivative_self.symm.trans hmanifest)
      exact hsha
  · intro h hready
    obtain ⟨hstored, hmanifest, ⟨i, hi, hown⟩, hcancelled⟩ := hs hready
    obtain ⟨hparts, hsame⟩ := h hready
    refine ⟨fun part hpart => ?_, ?_, ⟨i, hi, hcompleted i _ _ hown⟩, hcancelled⟩
    · by_cases hkey : part.objectKey = key
      · refine ⟨bytes, ?_, hparts part hpart hkey⟩
        rw [hkey]
        exact putDerivative_self
      · obtain ⟨stored, hobject, hpartSha⟩ := hstored part hpart
        exact ⟨stored, (putDerivative_of_ne hkey).trans hobject, hpartSha⟩
    · by_cases hkey : manifestKey = key
      · subst hkey
        have hself : (s.putDerivative manifestKey bytes).objects manifestKey = some bytes :=
          putDerivative_self
        exact ⟨bytes, hself, hsame rfl⟩
      · obtain ⟨manifest, hobject, hsha⟩ := hmanifest
        exact ⟨manifest, (putDerivative_of_ne hkey).trans hobject, hsha⟩

/-! ### Completing -/

theorem Numbered.nodup {parts : List ExportPart} (h : Numbered kind parts) :
    (parts.map ExportPart.partNumber).Nodup := by
  rw [h.1]
  exact List.nodup_range'

theorem Numbered.le {parts : List ExportPart} (h : Numbered kind parts) {part : ExportPart}
    (hpart : part ∈ parts) : part.partNumber ≤ parts.length := by
  have hmem : part.partNumber ∈ List.range' 1 parts.length := h.1 ▸ List.mem_map_of_mem hpart
  have hlt := (List.mem_range'_1.mp hmem).2
  omega

/-- The next part has the next number. -/
theorem Numbered.snoc {parts : List ExportPart} (h : Numbered kind parts) {bytes : Buffer} :
    Numbered kind (parts ++ [⟨parts.length + 1, partKey kind (parts.length + 1),
      toHex (sha256 bytes), bytes.length⟩]) := by
  refine ⟨?_, fun part hpart => ?_⟩
  · rw [List.map_append, h.1, List.map_singleton, List.length_append, List.length_singleton,
      List.range'_concat, Nat.one_mul, Nat.add_comm 1]
  · rcases List.mem_append.mp hpart with hpart | hpart
    · exact h.2 part hpart
    · rw [List.mem_singleton.mp hpart]

/-- **A completion** makes the record right exactly if it finds what the execution has
uploaded. -/
theorem described_complete {i : ℕ} {parts : List ExportPart} {manifestSha256 : JsString}
    (hnumbered : Numbered kind parts) (hi : i < s.executions.length) :
    Described sha256 (s.complete i parts manifestSha256) ↔
      s.parts <+: parts ∧ (∀ part ∈ parts, Stored sha256 s.objects part) ∧
        ManifestStored sha256 s.objects manifestSha256 ∧ s.cancelled = false := by
  have hparts : UniqueRows.insertAll ExportPart.partNumber s.parts parts = parts ↔
      s.parts <+: parts := UniqueRows.insertAll_eq_right_iff _ hnumbered.nodup
  have hself : (s.complete i parts manifestSha256).executions[i]? =
      some (.completed parts manifestSha256) := List.getElem?_set_self hi
  rw [← hparts]
  refine ⟨?_, ?_⟩
  · intro h
    obtain ⟨hstored, hmanifest, ⟨j, hj, hown⟩, hcancelled⟩ := h rfl
    obtain rfl : i = j := Option.some.inj hj
    have heq : parts = UniqueRows.insertAll ExportPart.partNumber s.parts parts := by
      have hcompleted := Option.some.inj (hself.symm.trans hown)
      exact (Execution.completed.inj hcompleted).1
    refine ⟨heq.symm, fun part hpart => hstored part ?_, hmanifest, hcancelled⟩
    show part ∈ UniqueRows.insertAll ExportPart.partNumber s.parts parts
    rw [← heq]
    exact hpart
  · rintro ⟨heq, hstored, hmanifest, hcancelled⟩ -
    refine ⟨fun part hpart => hstored part ?_, hmanifest, ⟨i, rfl, ?_⟩, hcancelled⟩
    · rw [← heq]
      exact hpart
    · rw [hself]
      exact congrArg (fun l => some (Execution.completed l manifestSha256)) heq.symm

/-! ### Runs -/

theorem sound_step {e : Event} (hs : Sound kind s) (h : step sha256 kind s e = some s') :
    Sound kind s' := by
  rcases step_cases h with ⟨i, parts, bytes, -, hexecution, rfl⟩ |
    ⟨i, parts, bytes, -, hexecution, rfl⟩ | ⟨i, parts, manifestSha256, -, -, rfl⟩ | ⟨-, -, hsound⟩
  · have hnumbered : Numbered kind parts := hs _ (List.mem_of_getElem? hexecution)
    have hnext : Execution.Sound kind (.exporting (parts ++ [⟨parts.length + 1,
        partKey kind (parts.length + 1), toHex (sha256 bytes), bytes.length⟩])) := hnumbered.snoc
    exact sound_set hnext rfl hs
  · have hnumbered : Numbered kind parts := hs _ (List.mem_of_getElem? hexecution)
    have hnext : Execution.Sound kind (.exported parts (toHex (sha256 bytes))) := hnumbered
    exact sound_set hnext rfl hs
  · have hnext : Execution.Sound kind (.completed parts manifestSha256) := trivial
    exact sound_set hnext rfl hs
  · exact hsound hs

/-- An event leaves the record right exactly if it is clear. -/
theorem described_step {e : Event} (hs : Sound kind s) (hgood : Described sha256 s)
    (h : step sha256 kind s e = some s') : Described sha256 s' ↔ Clear sha256 kind s e := by
  rcases step_cases h with ⟨i, parts, bytes, rfl, hexecution, rfl⟩ |
    ⟨i, parts, bytes, rfl, hexecution, rfl⟩ | ⟨i, parts, manifestSha256, rfl, hexecution, rfl⟩ |
    ⟨hclear, haside, -⟩
  · rw [State.uploadPart, described_upload hgood
      (completed_set hexecution (by rintro _ _ ⟨⟩) rfl)]
    refine ⟨?_, ?_⟩
    · intro hharmless parts' hexecution'
      cases Option.some.inj (hexecution.symm.trans hexecution')
      exact hharmless
    · intro hclear
      exact hclear parts hexecution
  · rw [State.uploadManifest, described_upload hgood
      (completed_set hexecution (by rintro _ _ ⟨⟩) rfl)]
    exact ⟨fun hharmless _ _ => hharmless, fun hclear => hclear parts hexecution⟩
  · have hnumbered : Numbered kind parts := hs _ (List.mem_of_getElem? hexecution)
    rw [described_complete hnumbered (List.getElem?_eq_some_iff.mp hexecution).1]
    refine ⟨?_, ?_⟩
    · intro hfound parts' manifestSha256' hexecution'
      cases Option.some.inj (hexecution.symm.trans hexecution')
      exact hfound
    · intro hclear
      exact hclear parts manifestSha256 hexecution
  · exact iff_of_true (haside.described hgood) hclear

/-- **A ready export describes its own bytes, and was never cancelled**, throughout exactly the
runs in which every execution that completes finds the objects it has uploaded, no rows but its
own, and an export that was not cancelled, and whatever is uploaded while the export is ready is
what is recorded. -/
theorem described_iff {es : List Event} {t : State}
    (h : run (step sha256 kind) State.queued es = some t) :
    Throughout (step sha256 kind) (Described sha256) State.queued es ↔
      Always (step sha256 kind) (Clear sha256 kind) State.queued es :=
  have hstart : Sound kind State.queued := fun _ h => absurd h List.not_mem_nil
  throughout_iff_always (fun _ _ _ => sound_step) (fun _ _ _ => described_step) hstart
    (by rintro ⟨⟩) h

/-! ### Executions that do not overlap -/

/-- The last execution moves. -/
theorem orderly_set (hs : Orderly sha256 kind s) {i : ℕ} {execution next : Execution}
    (hexecution : s.executions[i]? = some execution) (hlive : execution.Live)
    (hexecutions : s'.executions = s.executions.set i next)
    (hsettled : s'.parts ≠ [] ∨ s'.cancelled = true → s'.status = .ready ∨ s'.status = .cancelled)
    (hnext : next.Live → Undisturbed sha256 kind s' next) : Orderly sha256 kind s' := by
  refine ⟨hsettled, fun j other hother hlive' => ?_⟩
  obtain ⟨hlast, -⟩ := hs.last i execution hexecution hlive
  rw [hexecutions] at hother ⊢
  by_cases hj : i = j
  · subst hj
    rw [List.getElem?_set_self (List.getElem?_eq_some_iff.mp hexecution).1] at hother
    obtain rfl := Option.some.inj hother
    exact ⟨hlast.trans List.length_set.symm, hnext hlive'⟩
  · rw [List.getElem?_set_ne hj] at hother
    have hlast' := (hs.last j other hother hlive').1
    exact absurd (Nat.succ.inj (hlast.trans hlast'.symm)) hj

/-- Without rows, and without a cancellation, nothing needs to be settled. -/
theorem Undisturbed.settled {execution : Execution} (h : Undisturbed sha256 kind s execution)
    (hparts : s'.parts = s.parts) (hcancelled : s'.cancelled = s.cancelled) :
    s'.parts ≠ [] ∨ s'.cancelled = true → s'.status = .ready ∨ s'.status = .cancelled := by
  rw [hparts, hcancelled, h.parts, h.cancelled]
  rintro (hne | hfalse)
  · exact absurd rfl hne
  · cases hfalse

/-- Another object does not touch a part. -/
theorem Stored.putDerivative {part : ExportPart} {key : ObjectKey} {bytes : Buffer}
    (h : Stored sha256 s.objects part) (hne : part.objectKey ≠ key) :
    Stored sha256 (s.putDerivative key bytes).objects part := by
  obtain ⟨stored, hobject, hpart⟩ := h
  exact ⟨stored, (putDerivative_of_ne hne).trans hobject, hpart⟩

/-- The last execution ends, and leaves everything as it is. -/
theorem orderly_ended (hs : Orderly sha256 kind s) {i : ℕ} {execution next : Execution}
    (hexecution : s.executions[i]? = some execution) (hlive : execution.Live)
    (hended : ¬ next.Live) :
    Orderly sha256 kind { s with executions := s.executions.set i next } :=
  orderly_set hs hexecution hlive rfl ((hs.last i _ hexecution hlive).2.settled rfl rfl)
    fun h => absurd h hended

theorem orderly_step {e : Event} (hs : Orderly sha256 kind s) (hserial : Serial s e)
    (h : step sha256 kind s e = some s') : Orderly sha256 kind s' := by
  cases e with
  | look =>
    simp only [step] at h
    split_ifs at h with hstatus
    · cases h
      exact hs
    · cases h
      have hopen : ¬ (s.status = .ready ∨ s.status = .cancelled) := by
        rintro (hready | hcancelled)
        · exact hstatus (by rw [hready]; decide)
        · exact hstatus (by rw [hcancelled]; decide)
      have hnone := not_or.mp fun h => hopen (hs.settled h)
      refine ⟨hs.settled, fun i execution hexecution hlive => ?_⟩
      rw [List.getElem?_append] at hexecution
      split_ifs at hexecution with hlt
      · exact absurd hlive (hserial execution (List.mem_of_getElem? hexecution))
      · rw [List.getElem?_singleton] at hexecution
        split_ifs at hexecution with hzero
        cases hexecution
        refine ⟨?_, fun hready => hopen (.inl hready), not_not.mp hnone.1,
          Bool.eq_false_iff.mpr hnone.2, trivial⟩
        rw [List.length_append, List.length_singleton]
        omega
  | start i =>
    simp only [step] at h
    split at h
    · next hexecution =>
      cases h
      have hfound := (hs.last i _ hexecution trivial).2
      refine orderly_set hs hexecution trivial rfl (hfound.settled rfl rfl) fun _ => ?_
      exact ⟨by rintro ⟨⟩, hfound.parts, hfound.cancelled,
        ⟨rfl, fun _ h => absurd h List.not_mem_nil⟩, fun _ h => absurd h List.not_mem_nil⟩
    · cases h
  | uploadPart i bytes =>
    simp only [step] at h
    split at h
    · next parts hexecution =>
      split_ifs at h
      obtain rfl := Option.some.inj h
      have hfound := (hs.last i _ hexecution trivial).2
      obtain ⟨hnumbered, hstored⟩ := hfound.holds
      refine orderly_set hs hexecution trivial rfl (hfound.settled rfl rfl) fun _ => ?_
      refine ⟨hfound.status, hfound.parts, hfound.cancelled, hnumbered.snoc, fun part hpart => ?_⟩
      rcases List.mem_append.mp hpart with hpart | hpart
      · -- the earlier parts have earlier numbers
        refine (hstored part hpart).putDerivative fun hkey => ?_
        rw [hnumbered.2 part hpart, partKey_inj] at hkey
        have hle := hnumbered.le hpart
        omega
      · rw [List.mem_singleton.mp hpart]
        exact ⟨bytes, putDerivative_self, rfl, rfl⟩
    · cases h
  | uploadManifest i bytes =>
    simp only [step] at h
    split at h
    · next parts hexecution =>
      split_ifs at h
      obtain rfl := Option.some.inj h
      have hfound := (hs.last i _ hexecution trivial).2
      obtain ⟨hnumbered, hstored⟩ := hfound.holds
      refine orderly_set hs hexecution trivial rfl (hfound.settled rfl rfl) fun _ => ?_
      have hself : (s.putDerivative manifestKey bytes).objects manifestKey = some bytes :=
        putDerivative_self
      refine ⟨hfound.status, hfound.parts, hfound.cancelled, fun part hpart => ?_, bytes, hself,
        rfl⟩
      refine (hstored part hpart).putDerivative ?_
      rw [hnumbered.2 part hpart]
      exact partKey_ne_manifestKey
    · cases h
  | complete i =>
    simp only [step] at h
    split at h
    · next parts manifestSha256 hexecution =>
      obtain rfl := Option.some.inj h
      exact orderly_set hs hexecution trivial rfl (fun _ => .inl rfl) fun h => h.elim
    · cases h
  | fail i =>
    simp only [step] at h
    split at h
    · next hexecution =>
      cases h
      have hfound := (hs.last i _ hexecution trivial).2
      exact orderly_set hs hexecution trivial rfl (hfound.settled rfl rfl) fun h => h.elim
    · next hexecution =>
      cases h
      have hfound := (hs.last i _ hexecution trivial).2
      exact orderly_set hs hexecution trivial rfl (hfound.settled rfl rfl) fun h => h.elim
    · cases h
  | crash i =>
    simp only [step] at h
    split at h
    · next hexecution =>
      cases h
      exact orderly_ended hs hexecution trivial fun h => h.elim
    · next hexecution =>
      cases h
      exact orderly_ended hs hexecution trivial fun h => h.elim
    · next hexecution =>
      cases h
      exact orderly_ended hs hexecution trivial fun h => h.elim
    · cases h
  | cancel =>
    cases h
    refine ⟨fun _ => .inr rfl, fun i execution hexecution hlive => ?_⟩
    exact absurd hlive (hserial execution (List.mem_of_getElem? hexecution))

/-- **It is enough that executions do not overlap**, and that the export is not cancelled in the
midst of one. -/
theorem clear_of_serial {es : List Event}
    (h : Always (step sha256 kind) Serial State.queued es) :
    Always (step sha256 kind) (Clear sha256 kind) State.queued es := by
  have hstart : Orderly sha256 kind State.queued := by
    refine ⟨?_, fun i execution h => ?_⟩
    · rintro (hne | hfalse)
      · exact absurd rfl hne
      · cases hfalse
    · rw [State.queued, List.getElem?_nil] at h
      cases h
  refine h.imp (fun _ _ _ hinv hserial hs => orderly_step hinv hserial hs) ?_ hstart
  intro s e hinv _
  cases e with
  | uploadPart i bytes | uploadManifest i bytes =>
    intro parts hexecution hready
    exact absurd hready (hinv.last i _ hexecution trivial).2.status
  | complete i =>
    intro parts manifestSha256 hexecution
    have hfound := (hinv.last i _ hexecution trivial).2
    refine ⟨?_, hfound.holds.1, hfound.holds.2, hfound.cancelled⟩
    rw [hfound.parts]
    exact List.nil_prefix
  | _ => trivial

end Proofs

/-! ### Two deliveries of a job -/

/-- The job is delivered again while its first execution is still uploading. -/
def redelivered : List Event :=
  [.look, .start 0, .look, .start 1, .uploadPart 0 [1], .uploadManifest 0 [7], .uploadPart 1 [1, 2],
    .complete 0]

/-- **The export is ready, and its part has another size than is recorded**, whatever the digest. -/
theorem redelivered_not_described :
    ¬ ∃ sha256 : Buffer → Buffer, ∀ t,
      run (step sha256 .native) State.queued redelivered = some t → Described sha256 t := by
  rintro ⟨sha256, h⟩
  have hrun : ∃ t, run (step sha256 .native) State.queued redelivered = some t ∧
      t.status = .ready ∧ t.objects (partKey .native 1) = some [1, 2] ∧
      t.parts = [⟨1, partKey .native 1, toHex (sha256 [1]), 1⟩] := ⟨_, rfl, rfl, rfl, rfl⟩
  obtain ⟨t, ht, hready, hobject, hparts⟩ := hrun
  have hstored := (h t ht hready).stored
  rw [hparts] at hstored
  obtain ⟨bytes, hbytes, -, hsize⟩ := hstored _ (List.mem_singleton_self _)
  obtain rfl := Option.some.inj (hobject.symm.trans hbytes)
  exact absurd hsize (show (1 : ℕ) ≠ 2 by decide)

/-- An execution is killed after its first part, and the job is delivered again. -/
def resumed : List Event :=
  [.look, .start 0, .uploadPart 0 [1], .crash 0, .look, .start 1, .uploadPart 1 [1, 2],
    .uploadPart 1 [3], .uploadManifest 1 [7], .complete 1, .look]

theorem resumed_described :
    ∃ t, run (step id .native) State.queued resumed = some t ∧ t.status = .ready ∧
      t.parts.map ExportPart.sizeBytes = [2, 1] ∧
      Throughout (step id .native) (Described id) State.queued resumed := by
  have hserial : Always (step id .native) Serial State.queued resumed := by decide
  have hrun : ∃ t, run (step id .native) State.queued resumed = some t ∧ t.status = .ready ∧
      t.parts.map ExportPart.sizeBytes = [2, 1] := ⟨_, rfl, rfl, rfl⟩
  obtain ⟨t, ht, hready, hparts⟩ := hrun
  exact ⟨t, ht, hready, hparts, (described_iff ht).mpr (clear_of_serial hserial)⟩

end AegCloudDfir.Export.Recording
