import AegCloudDfir.Lib.LastWord
import AegCloudDfir.Processing.Retry
import AegCloudDfir.Search.Convergence

/-!
# Missing objects

Five stages read the object of an item: `process.scan`, `process.extract`, `process.ocr`,
`process.preview` and `process.parse`. One that does not find it records that
(`recordMissingObject`, `apps/worker/src/processors/missing-object.ts`): it updates the row of the
item, looks for a row of the exceptions ledger, and writes one if there is none, in a transaction.
The update locks the row of the item, so of two such transactions the second looks when the first
has committed. A stage that has read the object before it was lost sets the status, too, when it
comes to its end.

One item is followed here. What stages find in the bytes is up to them; what the rows of the ledger
say besides, and derivatives, are left out.

* `step` — the stages, each by its steps, and the row lock.
* `Recorded` — what is asked for in the end.
* `stays_recorded_iff` — it is so for an item of a collection exactly if no stage has the last word
  that has read the object.
-/

namespace AegCloudDfir.Processing.MissingObject

open Transition
open Production (EvidenceKind ProcessingStatus MalwareStatus)
open Retry (ExceptionKind)
open Search.Convergence (indexableFrom)

/-! ## Messages -/

/-- The name of the bucket of a blob. -/
def bucketName (quarantined : Bool) : JsString :=
  if quarantined then js "quarantine" else js "evidence"

/-- `missingObjectMessage` -/
def missingObjectMessage (bucket objectKey : JsString) : JsString :=
  js "evidence object is MISSING from " ++ (bucket ++ js " object storage (key " ++ objectKey ++
    js "). " ++ js "The bytes were collected and recorded but cannot be read now, so this item " ++
    js "cannot be scanned, extracted, previewed, produced or exported. This is not a " ++
    js "processing failure and retrying will not fix it.")

/-- `isMissingObjectDetail` -/
def isMissingObjectDetail (processingDetail : JsString) : Bool :=
  startsWith processingDetail (js "evidence object is MISSING")

/-- What is written to the item is recognised. -/
theorem isMissingObjectDetail_message (bucket objectKey : JsString) :
    isMissingObjectDetail ((missingObjectMessage bucket objectKey).take 500) = true := by
  have hhead : js "evidence object is MISSING from " =
      js "evidence object is MISSING" ++ js " from " := by decide
  rw [isMissingObjectDetail, startsWith, List.isPrefixOf_iff_prefix, missingObjectMessage, hhead,
    List.append_assoc]
  exact (List.prefix_take_iff.mpr ⟨List.prefix_append _ _, by decide⟩)

/-! ## The item -/

/-- The stages that read an object. -/
inductive Stage : Type where
  | scan
  | extract
  | ocr
  | preview
  | parse
  deriving DecidableEq

/-- The item, as far as it does not change. -/
structure Item where
  id : JsString
  kind : EvidenceKind
  collectionId : Option JsString
  deriving DecidableEq

/-- The blob of the item, as a stage has read it. -/
structure Blob where
  quarantined : Bool
  objectKey : JsString
  deriving DecidableEq

/-- A row of `collection_exceptions`. -/
structure LedgerRow where
  kind : ExceptionKind
  message : JsString
  /-- `detail.evidenceItemId` -/
  evidenceItemId : Option JsString
  deriving DecidableEq

/-- How far an execution is. -/
inductive Phase : Type where
  | started
  /-- it has the bytes -/
  | read
  /-- there is no object -/
  | noticed
  /-- it has updated the row of the item, which is locked until it commits -/
  | locked
  /-- it has looked for a row of the ledger -/
  | checked (already : Bool)
  | ended
  deriving DecidableEq

/-- An attempt of a job of a stage. -/
structure Execution where
  stage : Stage
  blob : Blob
  /-- `processingDetail`, as it was read -/
  detail : JsString
  phase : Phase
  deriving DecidableEq

/-- What there is about the item. -/
structure State where
  /-- the object is in the store -/
  present : Bool
  processingStatus : ProcessingStatus
  processingDetail : JsString
  malwareStatus : MalwareStatus
  /-- there is a scan that did not fail -/
  scanned : Bool
  /-- there is a `file_text` -/
  extracted : Bool
  ocred : Bool
  previewed : Bool
  ledger : List LedgerRow
  executions : List Execution
  /-- a stage has found no object -/
  noticed : Bool
  deriving DecidableEq

/-- What a stage makes of the bytes. -/
inductive Outcome : Type where
  /-- the scan has come to its end -/
  | scanned (malwareStatus : MalwareStatus) (signature : JsString)
  /-- `persistExtractedText` -/
  | text
  /-- `markExtractException` or `markException` -/
  | refused (kind : ExceptionKind) (message : JsString)
  /-- pages were recognised, perhaps only the first -/
  | pages (stoppedAtPage : Option ℕ)
  | preview
  | parsed (minimalParser : Bool)
  /-- there is only a row of the kind `other` to be written -/
  | noted (message : JsString)
  deriving DecidableEq

/-- What can happen next. -/
inductive Event : Type where
  /-- the object is lost -/
  | vanish
  | start (stage : Stage) (blob : Blob)
  | next (i : ℕ) (outcome : Outcome)
  /-- An attempt fails. Another one starts anew. -/
  | fail (i : ℕ)
  /-- the last transaction of `processSearchIndex` -/
  | indexed
  deriving DecidableEq

/-- `DONE_STATUSES` -/
def isDone : ProcessingStatus → Bool
  | .parsed | .extracted | .ocrComplete | .previewReady | .indexed => true
  | _ => false

/-- A note of OCR that it has not read all pages. -/
def truncationNote (stoppedAtPage : Option ℕ) : JsString :=
  match stoppedAtPage with
  | none => []
  | some page => js "ocr read the first " ++ decimal page ++
      js " page(s); the document has more, " ++
      js "so text beyond that page is NOT in this record or in search"

/-- A stage can come to this. -/
def Stage.allows : Stage → Outcome → Bool
  | .scan, .scanned _ _ => true
  | .extract, .text => true
  | .extract, .refused kind _ => kind = .encryptedItem ∨ kind = .unsupportedItem
  | .ocr, .pages _ | .ocr, .noted _ => true
  | .preview, .preview | .preview, .noted _ => true
  | .parse, .parsed _ => true
  | .parse, .refused kind _ => kind = .unsupportedItem ∨ kind = .corruptItem
  | _, _ => false

/-- The outcome is written to the row of the item. -/
def Outcome.updates : Outcome → Bool
  | .preview | .noted _ => false
  | _ => true

section Steps

variable (item : Item) (s : State)

/-- The stage does not return at once. -/
def lets (stage : Stage) (blob : Blob) : Bool :=
  match stage with
  | .scan => ¬ s.scanned
  | .extract => item.kind ≠ .email ∧ ¬ s.extracted
  | .ocr => ¬ s.ocred
  | .preview => ¬ s.previewed ∧ ¬ blob.quarantined
  | .parse => item.kind = .email ∧ ¬ isDone s.processingStatus

/-- The execution holds the row of the item. -/
def Phase.holds : Phase → Bool
  | .locked | .checked _ => true
  | _ => false

/-- Nobody holds the row of the item. -/
def State.free : Bool := s.executions.all fun execution => ¬ execution.phase.holds

/-- An execution goes on. -/
def State.setPhase (i : ℕ) (execution : Execution) (phase : Phase) : State :=
  { s with executions := s.executions.set i { execution with phase := phase } }

/-- `recordException` -/
def State.recordException (row : LedgerRow) : State :=
  if item.collectionId = none then s else { s with ledger := s.ledger ++ [row] }

/-- The row is about the missing object. -/
def LedgerRow.isMissing (row : LedgerRow) : Bool :=
  row.kind = .objectMissing ∧ row.evidenceItemId = some item.id

/-- What a stage writes in the end. -/
def finish (execution : Execution) : Outcome → State
  | .scanned malwareStatus signature =>
    let s := { s with malwareStatus := malwareStatus, scanned := malwareStatus ≠ .scanFailed }
    if malwareStatus = .infected then
      s.recordException item ⟨.quarantined, js "malware detected: " ++ signature, none⟩
    else s
  | .text => { s with extracted := true, processingStatus := .extracted }
  | .refused kind message =>
    let row : LedgerRow :=
      ⟨kind, message.take 1000, if execution.stage = .extract then some item.id else none⟩
    { s.recordException item row with
      processingStatus := .exception
      processingDetail := message.take 500 }
  | .pages stoppedAtPage =>
    let note := truncationNote stoppedAtPage
    let s := { s with ocred := true, processingStatus := .ocrComplete, processingDetail := note }
    if stoppedAtPage = none then s else s.recordException item ⟨.other, note.take 1000, none⟩
  | .preview => { s with previewed := true }
  | .parsed minimalParser =>
    { s with
      processingStatus := .parsed
      processingDetail :=
        if execution.detail = js "extracted-from-pst" then js "extracted-from-pst"
        else if minimalParser then js "minimal-parser" else [] }
  | .noted message => s.recordException item ⟨.other, message.take 1000, none⟩

/-- The end of `recordMissingObject`. -/
def recordMissingObject (execution : Execution) (already : Bool) : State :=
  let message := missingObjectMessage (bucketName execution.blob.quarantined)
    execution.blob.objectKey
  let s := { s with
    processingStatus := .exception
    processingDetail := message.take 500
    malwareStatus := if execution.stage = .scan then .objectMissing else s.malwareStatus }
  if already then s
  else s.recordException item ⟨.objectMissing, message.take 1000, some item.id⟩

/-- The next step of an execution. -/
def next (i : ℕ) (outcome : Outcome) (execution : Execution) : Option State :=
  match execution.phase with
  | .started =>
    if s.present then some (s.setPhase i execution .read)
    else some { s.setPhase i execution .noticed with noticed := true }
  | .read =>
    if execution.stage.allows outcome ∧ (outcome.updates → s.free) then
      some ((finish item s execution outcome).setPhase i execution .ended)
    else none
  | .noticed => if s.free then some (s.setPhase i execution .locked) else none
  | .locked => some (s.setPhase i execution (.checked (s.ledger.any (·.isMissing item))))
  | .checked already =>
    some ((recordMissingObject item s execution already).setPhase i execution .ended)
  | .ended => none

/-- An attempt fails, and its transaction is rolled back. -/
def State.giveUp (i : ℕ) (execution : Execution) : Option State :=
  if execution.phase = .ended then none else some (s.setPhase i execution .ended)

/-- What an event does. -/
def step : Event → Option State
  | .vanish => some { s with present := false }
  | .start stage blob =>
    if lets item s stage blob then
      some { s with executions := s.executions ++ [⟨stage, blob, s.processingDetail, .started⟩] }
    else none
  | .next i outcome => s.executions[i]?.bind (next item s i outcome)
  | .fail i => s.executions[i]?.bind (s.giveUp i)
  | .indexed =>
    if s.free ∧ s.processingStatus ∈ indexableFrom item.kind then
      some { s with processingStatus := .indexed }
    else none

/-- The successors of a state, by what has happened. -/
inductive Moves : Event → State → Prop
  | vanish : Moves .vanish { s with present := false }
  | start {stage blob} : lets item s stage blob →
      Moves (.start stage blob)
        { s with executions := s.executions ++ [⟨stage, blob, s.processingDetail, .started⟩] }
  | reads {i outcome execution} : s.executions[i]? = some execution →
      execution.phase = .started → Moves (.next i outcome) (s.setPhase i execution .read)
  | notices {i outcome execution} : s.executions[i]? = some execution →
      execution.phase = .started →
      Moves (.next i outcome) { s.setPhase i execution .noticed with noticed := true }
  | finishes {i outcome execution} : s.executions[i]? = some execution →
      execution.phase = .read → execution.stage.allows outcome →
      Moves (.next i outcome) ((finish item s execution outcome).setPhase i execution .ended)
  | locks {i outcome execution} : s.executions[i]? = some execution →
      execution.phase = .noticed → s.free →
      Moves (.next i outcome) (s.setPhase i execution .locked)
  | looks {i outcome execution} : s.executions[i]? = some execution →
      execution.phase = .locked →
      Moves (.next i outcome)
        (s.setPhase i execution (.checked (s.ledger.any (·.isMissing item))))
  | commits {i outcome execution already} : s.executions[i]? = some execution →
      execution.phase = .checked already →
      Moves (.next i outcome)
        ((recordMissingObject item s execution already).setPhase i execution .ended)
  | fails {i execution} : s.executions[i]? = some execution →
      execution.phase ≠ .ended → Moves (.fail i) (s.setPhase i execution .ended)
  | indexed : s.processingStatus ∈ indexableFrom item.kind →
      Moves .indexed { s with processingStatus := .indexed }

variable {item s}

theorem moves_of_step {s' : State} {e : Event} (h : step item s e = some s') :
    Moves item s e s' := by
  cases e with
  | vanish =>
    obtain rfl := Option.some.inj h
    exact .vanish
  | start stage blob =>
    obtain ⟨hlets, h⟩ := Option.ite_none_right_eq_some.mp h
    obtain rfl := Option.some.inj h
    exact .start hlets
  | indexed =>
    obtain ⟨⟨-, hindexable⟩, h⟩ := Option.ite_none_right_eq_some.mp h
    obtain rfl := Option.some.inj h
    exact .indexed hindexable
  | fail i =>
    obtain ⟨execution, hi, h⟩ := Option.bind_eq_some_iff.mp h
    obtain ⟨hphase, h⟩ := Option.ite_none_left_eq_some.mp h
    obtain rfl := Option.some.inj h
    exact .fails hi hphase
  | next i outcome =>
    obtain ⟨execution, hi, h⟩ := Option.bind_eq_some_iff.mp h
    unfold next at h
    cases hphase : execution.phase with
    | started =>
      simp only [hphase] at h
      split at h
      · obtain rfl := Option.some.inj h
        exact .reads hi hphase
      · obtain rfl := Option.some.inj h
        exact .notices hi hphase
    | read =>
      simp only [hphase] at h
      obtain ⟨⟨hallows, -⟩, h⟩ := Option.ite_none_right_eq_some.mp h
      obtain rfl := Option.some.inj h
      exact .finishes hi hphase hallows
    | noticed =>
      simp only [hphase] at h
      obtain ⟨hfree, h⟩ := Option.ite_none_right_eq_some.mp h
      obtain rfl := Option.some.inj h
      exact .locks hi hphase hfree
    | locked =>
      simp only [hphase] at h
      obtain rfl := Option.some.inj h
      exact .looks hi hphase
    | checked already =>
      simp only [hphase] at h
      obtain rfl := Option.some.inj h
      exact .commits hi hphase
    | ended => simp [hphase] at h

end Steps

/-! ## What is asked for -/

/-- The rows of the ledger about the missing object. -/
def missingRows (item : Item) (s : State) : ℕ := s.ledger.countP (·.isMissing item)

/-- The row of the item says that its object is missing. -/
def State.Told (s : State) : Prop :=
  s.processingStatus = .exception ∧ isMissingObjectDetail s.processingDetail

/-- **The missing object is recorded**, once. -/
def Recorded (item : Item) (s : State) : Prop := missingRows item s = 1 ∧ s.Told

instance (item : Item) (s : State) : Decidable (Recorded item s) :=
  inferInstanceAs (Decidable (_ ∧ _ ∧ _))

/-- All jobs have finished. -/
def State.Settled (s : State) : Prop := ∀ execution ∈ s.executions, execution.phase = .ended

instance (s : State) : Decidable s.Settled :=
  inferInstanceAs (Decidable (∀ execution ∈ s.executions, _))

/-- Nothing has happened to the item. -/
structure Initial (item : Item) (s : State) : Prop where
  executions : s.executions = []
  missingRows : missingRows item s = 0
  noticed : s.noticed = false

/-! ## What an event does to the row of the item -/

/-- An outcome is written to status and detail: do they say that the object is missing? -/
def Outcome.tells : Outcome → Option Bool
  | .text | .pages _ | .parsed _ => some false
  | .refused _ message => some (isMissingObjectDetail (message.take 500))
  | .scanned _ _ | .preview | .noted _ => none

/-- An event writes status or detail: do they say that the object is missing? -/
def tells (s : State) : Event → Option Bool
  | .next i outcome => s.executions[i]?.bind fun execution =>
      match execution.phase with
      | .read => outcome.tells
      | .checked _ => some true
      | _ => none
  | _ => none

/-- A transaction of `recordMissingObject` commits. -/
def Commits (s : State) : Event → Prop
  | .next i _ => ∃ execution already, s.executions[i]? = some execution ∧
      execution.phase = .checked already
  | _ => False

/-- It has found no object and has not recorded it. -/
def Phase.Waits (phase : Phase) : Prop := phase ∉ [.started, .read, .ended]

/-- An attempt that has found no object fails. -/
def Forgets (s : State) : Event → Prop
  | .fail i => ∃ execution, s.executions[i]? = some execution ∧ execution.phase.Waits
  | _ => False

section Rows

variable {item : Item} {s s' : State} {e : Event}

theorem tells_of_commits (h : Commits s e) : tells s e = some true := by
  cases e with
  | next i outcome =>
    obtain ⟨execution, already, hi, hphase⟩ := h
    simp [tells, hi, hphase]
  | _ => exact h.elim

@[simp] theorem recordException_processingStatus (row : LedgerRow) :
    (s.recordException item row).processingStatus = s.processingStatus := by
  unfold State.recordException
  split <;> rfl

@[simp] theorem recordException_processingDetail (row : LedgerRow) :
    (s.recordException item row).processingDetail = s.processingDetail := by
  unfold State.recordException
  split <;> rfl

@[simp] theorem recordException_executions (row : LedgerRow) :
    (s.recordException item row).executions = s.executions := by
  unfold State.recordException
  split <;> rfl

@[simp] theorem recordException_noticed (row : LedgerRow) :
    (s.recordException item row).noticed = s.noticed := by
  unfold State.recordException
  split <;> rfl

theorem missingRows_recordException (row : LedgerRow) :
    missingRows item (s.recordException item row) =
      missingRows item s + if item.collectionId ≠ none ∧ row.isMissing item then 1 else 0 := by
  unfold State.recordException
  by_cases hcollection : item.collectionId = none
  · simp [hcollection]
  · simp [hcollection, missingRows, List.countP_append, List.countP_singleton]

theorem told_recordMissingObject (execution : Execution) (already : Bool) :
    (recordMissingObject item s execution already).Told := by
  have hmessage := isMissingObjectDetail_message (bucketName execution.blob.quarantined)
    execution.blob.objectKey
  cases already <;> simp [recordMissingObject, State.Told, hmessage]

/-- An outcome leaves on the row what it tells. -/
theorem told_finish (execution : Execution) (outcome : Outcome) :
    (finish item s execution outcome).Told ↔
      (outcome.tells = none ∧ s.Told) ∨ outcome.tells = some true := by
  cases outcome with
  | scanned malwareStatus signature | pages stoppedAtPage =>
    simp only [finish, Outcome.tells]
    split <;> simp [State.Told]
  | _ => simp [finish, Outcome.tells, State.Told]

/-- What an event leaves on the row of the item. -/
theorem told_step (h : step item s e = some s') :
    s'.Told ↔ (tells s e = none ∧ s.Told) ∨ tells s e = some true := by
  cases moves_of_step h with
  | vanish | start => simp [tells, State.Told]
  | fails => simp [tells, State.Told, State.setPhase]
  | indexed hindexable =>
    -- an item with an exception is not indexed
    have hstatus : s.processingStatus ≠ .exception := by
      intro hstatus
      rw [hstatus] at hindexable
      revert hindexable
      cases item.kind <;> decide
    simp [tells, State.Told, hstatus]
  | reads hi hphase | notices hi hphase | locks hi hphase
  | looks hi hphase => simp [tells, hi, hphase, State.Told, State.setPhase]
  | finishes hi hphase =>
    simp only [tells, hi, Option.bind_some, hphase]
    exact told_finish _ _
  | commits hi hphase =>
    simp only [tells, hi, Option.bind_some, hphase]
    exact iff_of_true (told_recordMissingObject _ _) (.inr trivial)

end Rows

/-! ## The ledger

The row of the item is a lock: an attempt that has updated it holds it. -/

/-- One attempt at most holds the row of the item, and what it has seen of the ledger is so. -/
structure Sound (item : Item) (s : State) : Prop where
  exclusive : ∀ (i j : ℕ) (x y : Execution), s.executions[i]? = some x →
    s.executions[j]? = some y → x.phase.holds → y.phase.holds → i = j
  seen : ∀ (i : ℕ) (x : Execution) (already : Bool), s.executions[i]? = some x →
    x.phase = .checked already → already = s.ledger.any (·.isMissing item)
  once : missingRows item s ≤ 1

section Ledger

variable {item : Item} {s s' t : State} {e : Event} {es : List Event}

theorem any_isMissing : s.ledger.any (·.isMissing item) = true ↔ 0 < missingRows item s := by
  rw [List.any_eq_true, missingRows, List.countP_pos_iff]

theorem Initial.sound (h : Initial item s) : Sound item s where
  exclusive i j x y hi := by simp [h.executions] at hi
  seen i x already hi := by simp [h.executions] at hi
  once := h.missingRows ▸ Nat.zero_le 1

/-- Nobody holds a row that is free. -/
theorem not_holds_of_free (h : s.free) {i : ℕ} {x : Execution} (hi : s.executions[i]? = some x) :
    ¬ x.phase.holds :=
  of_decide_eq_true (List.all_eq_true.mp h x (List.mem_of_getElem? hi))

/-- An attempt goes on that holds the row already, or finds it free. -/
theorem Sound.setPhase (h : Sound item s) {i : ℕ} {x : Execution} {phase : Phase} {u : State}
    (hi : s.executions[i]? = some x) (hu : u.executions = s.executions.set i { x with phase })
    (hledger : missingRows item u = missingRows item s)
    (hholds : phase.holds → x.phase.holds ∨ s.free)
    (hseen : ∀ already, phase = .checked already → already = s.ledger.any (·.isMissing item)) :
    Sound item u := by
  have hany : u.ledger.any (·.isMissing item) = s.ledger.any (·.isMissing item) := by
    rw [Bool.eq_iff_iff, any_isMissing, any_isMissing, hledger]
  -- another one does not hold the row if this one does
  have hother : ∀ j y, j ≠ i → s.executions[j]? = some y → y.phase.holds → ¬ phase.holds := by
    intro j y hne hj hy hphase
    rcases hholds hphase with hx | hfree
    · exact hne (h.exclusive j i y x hj hi hy hx)
    · exact not_holds_of_free hfree hj hy
  refine ⟨?_, ?_, hledger ▸ h.once⟩
  · intro j k y z hj hk hy hz
    rw [hu, List.getElem?_set] at hj hk
    split at hj <;> split at hk
    · omega
    · next hij hik =>
      obtain ⟨-, hj⟩ := Option.ite_none_right_eq_some.mp hj
      obtain rfl := Option.some.inj hj
      exact absurd hy (hother k z (Ne.symm hik) hk hz)
    · next hij hik =>
      obtain ⟨-, hk⟩ := Option.ite_none_right_eq_some.mp hk
      obtain rfl := Option.some.inj hk
      exact absurd hz (hother j y (Ne.symm hij) hj hy)
    · exact h.exclusive j k y z hj hk hy hz
  · intro j y already hj hy
    rw [hany]
    rw [hu, List.getElem?_set] at hj
    split at hj
    · obtain ⟨-, hj⟩ := Option.ite_none_right_eq_some.mp hj
      obtain rfl := Option.some.inj hj
      exact hseen already hy
    · exact h.seen j y already hj hy

theorem missingRows_recordException_other {row : LedgerRow} (h : row.kind ≠ .objectMissing) :
    missingRows item (s.recordException item row) = missingRows item s := by
  rw [missingRows_recordException, if_neg, Nat.add_zero]
  rintro ⟨-, hrow⟩
  exact h (of_decide_eq_true hrow).1

/-- No outcome is a row about the missing object. -/
theorem missingRows_finish (execution : Execution) (outcome : Outcome)
    (hallows : execution.stage.allows outcome) :
    missingRows item (finish item s execution outcome) = missingRows item s := by
  cases outcome with
  | scanned malwareStatus signature =>
    simp only [finish]
    split
    · exact missingRows_recordException_other (nofun)
    · rfl
  | pages stoppedAtPage =>
    simp only [finish]
    split
    · rfl
    · exact missingRows_recordException_other (nofun)
  | refused kind message =>
    have hkind : kind ≠ .objectMissing := by
      rintro rfl
      revert hallows
      cases execution.stage <;> simp [Stage.allows]
    exact missingRows_recordException_other hkind
  | noted message => exact missingRows_recordException_other (nofun)
  | _ => rfl

theorem finish_executions (execution : Execution) (outcome : Outcome) :
    (finish item s execution outcome).executions = s.executions := by
  cases outcome with
  | scanned malwareStatus signature | pages stoppedAtPage =>
    simp only [finish]
    split <;> simp
  | _ => simp [finish]

theorem missingRows_recordMissingObject (execution : Execution) (already : Bool) :
    missingRows item (recordMissingObject item s execution already) =
      missingRows item s + if item.collectionId ≠ none ∧ already = false then 1 else 0 := by
  cases already with
  | true => simp [recordMissingObject, missingRows]
  | false =>
    refine (missingRows_recordException _).trans ?_
    simp [LedgerRow.isMissing, missingRows]

/-- An attempt has found the row of the item free, or has it still, when it comes to look. -/
theorem Sound.step (hs : Sound item s) (h : step item s e = some s') : Sound item s' := by
  cases moves_of_step h with
  | vanish | indexed => exact ⟨hs.exclusive, hs.seen, hs.once⟩
  | @start stage blob =>
    -- what has just started does not hold the row
    have hold : ∀ (i : ℕ) (x : Execution),
        (s.executions ++ [⟨stage, blob, s.processingDetail, .started⟩])[i]? = some x →
          x.phase = .started ∨ s.executions[i]? = some x := by
      intro i x hi
      rw [List.getElem?_append] at hi
      split at hi
      · exact .inr hi
      · obtain rfl := List.mem_singleton.mp (List.mem_of_getElem? hi)
        exact .inl rfl
    refine ⟨?_, ?_, hs.once⟩
    · intro i j x y hi hj hx hy
      rcases hold i x hi with hstarted | hi
      · simp [hstarted, Phase.holds] at hx
      · rcases hold j y hj with hstarted | hj
        · simp [hstarted, Phase.holds] at hy
        · exact hs.exclusive i j x y hi hj hx hy
    · intro i x already hi hx
      rcases hold i x hi with hstarted | hi
      · simp [hstarted] at hx
      · exact hs.seen i x already hi hx
  | reads hi hphase | notices hi hphase
  | fails hi hphase => exact hs.setPhase hi rfl rfl nofun nofun
  | @finishes i outcome execution hi hphase hallows =>
    have hexecutions : ((finish item s execution outcome).setPhase i execution .ended).executions =
        s.executions.set i { execution with phase := .ended } := by
      rw [State.setPhase, finish_executions]
    exact hs.setPhase hi hexecutions (missingRows_finish _ _ hallows) nofun nofun
  | locks hi hphase hfree => exact hs.setPhase hi rfl rfl (fun _ => .inr hfree) nofun
  | looks hi hphase =>
    refine hs.setPhase hi rfl rfl (fun _ => .inl (by rw [hphase]; rfl)) ?_
    intro already halready
    exact (Phase.checked.inj halready).symm
  | @commits i outcome execution already hi hphase =>
    have hholds : execution.phase.holds := by rw [hphase]; rfl
    have hexecutions : (recordMissingObject item s execution already).executions =
        s.executions := by
      cases already <;> simp [recordMissingObject]
    -- the row is free then
    have hfree : ∀ (j : ℕ) (y : Execution),
        (((recordMissingObject item s execution already).setPhase i execution
          .ended).executions)[j]? = some y → ¬ y.phase.holds := by
      intro j y hj hy
      rw [State.setPhase, hexecutions, List.getElem?_set] at hj
      split at hj
      · obtain ⟨-, hj⟩ := Option.ite_none_right_eq_some.mp hj
        obtain rfl := Option.some.inj hj
        exact nomatch hy
      · next hne => exact hne (hs.exclusive i j execution y hi hj hholds hy)
    refine ⟨fun j k y z hj hk hy => absurd hy (hfree j y hj), ?_, ?_⟩
    · intro j y seen hj hy
      exact absurd (by rw [hy]; rfl) (hfree j y hj)
    · change missingRows item (recordMissingObject item s execution already) ≤ 1
      rw [missingRows_recordMissingObject]
      split
      · next hadds =>
        have hnone : ¬ 0 < missingRows item s := by
          rw [← any_isMissing, ← hs.seen i execution already hi hphase, hadds.2]
          exact Bool.false_ne_true
        omega
      · exact hs.once

/-- Only `recordMissingObject` writes a row about the missing object. -/
theorem missingRows_step (h : step item s e = some s') (hcommits : ¬ Commits s e) :
    missingRows item s' = missingRows item s := by
  cases moves_of_step h with
  | finishes hi hphase hallows => exact missingRows_finish _ _ hallows
  | commits hi hphase => exact absurd ⟨_, _, hi, hphase⟩ hcommits
  | _ => rfl

/-- When it commits, there is one. -/
theorem missingRows_commits (hs : Sound item s) (hcollection : item.collectionId ≠ none)
    (h : step item s e = some s') (hcommits : Commits s e) : missingRows item s' = 1 := by
  cases moves_of_step h with
  | vanish => exact hcommits.elim
  | start => exact hcommits.elim
  | indexed => exact hcommits.elim
  | fails => exact hcommits.elim
  | @commits i outcome execution already hi hphase =>
    change missingRows item (recordMissingObject item s execution already) = 1
    rw [missingRows_recordMissingObject]
    have hseen := hs.seen i execution already hi hphase
    have honce := hs.once
    have hany : s.ledger.any (·.isMissing item) = true ↔ 0 < missingRows item s := any_isMissing
    rw [← hseen] at hany
    cases already with
    | true => simpa using Nat.le_antisymm honce (hany.mp rfl)
    | false => simpa [hcollection] using hany
  | reads hi hphase | notices hi hphase | locks hi hphase | looks hi hphase
  | finishes hi hphase =>
    obtain ⟨x, already, hi', hchecked⟩ := hcommits
    obtain rfl := Option.some.inj (hi.symm.trans hi')
    exact nomatch hphase.symm.trans hchecked

/-- **One row**, from the first commit on, in a collection. -/
theorem missingRows_eq_one_iff (hs : Sound item s) (h : run (step item) s es = some t)
    (hcollection : item.collectionId ≠ none) :
    missingRows item t = 1 ↔ missingRows item s = 1 ∨ Eventually (step item) Commits s es :=
  holds_iff_eventually (fun _ _ _ hs h => hs.step h)
    (fun _ _ _ hs h hcommits => missingRows_commits hs hcollection h hcommits)
    (fun _ _ _ _ h hcommits => by rw [missingRows_step h hcommits]) hs h

/-- No row, without one. -/
theorem missingRows_run (h : run (step item) s es = some t)
    (hcollection : item.collectionId = none) : missingRows item t = missingRows item s := by
  have hstep (u : State) (e : Event) (u' : State) (hu : missingRows item u = missingRows item s)
      (hstep : step item u e = some u') : missingRows item u' = missingRows item s := by
    rw [← hu]
    cases moves_of_step hstep with
    | finishes hi hphase hallows => exact missingRows_finish _ _ hallows
    | commits hi hphase =>
      refine (missingRows_recordMissingObject _ _).trans ?_
      rw [if_neg (fun h => h.1 hcollection), Nat.add_zero]
    | _ => rfl
  exact run_induction hstep rfl h

end Ledger

/-! ## Runs -/

section Runs

variable {item : Item} {s s' t : State} {e : Event} {es : List Event}

/-- An attempt has found no object and has not recorded it. -/
def State.Waits (s : State) : Prop := ∃ execution ∈ s.executions, execution.phase.Waits

theorem State.Waits.set {u : State} (h : s.Waits) {i : ℕ} {x : Execution} {phase : Phase}
    (hi : s.executions[i]? = some x) (hu : u.executions = s.executions.set i { x with phase })
    (hphase : x.phase.Waits → phase.Waits) : u.Waits := by
  obtain ⟨y, hy, hwaits⟩ := h
  obtain ⟨j, hj⟩ := List.mem_iff_getElem?.mp hy
  by_cases hij : i = j
  · obtain rfl := hij
    obtain rfl := Option.some.inj (hi.symm.trans hj)
    exact ⟨{ x with phase }, hu ▸ List.mem_set (List.getElem?_eq_some_iff.mp hi).1 _, hphase hwaits⟩
  · refine ⟨y, List.mem_of_getElem? (i := j) ?_, hwaits⟩
    rw [hu, List.getElem?_set_ne hij, hj]

/-- What is to be recorded still is, or is recorded or forgotten. -/
theorem waits_step (h : step item s e = some s') (hcommits : ¬ Commits s e)
    (hforgets : ¬ Forgets s e) (hwaits : s.Waits) : s'.Waits := by
  cases moves_of_step h with
  | vanish => exact hwaits
  | indexed => exact hwaits
  | start =>
    obtain ⟨x, hx, hphase⟩ := hwaits
    exact ⟨x, List.mem_append_left _ hx, hphase⟩
  | reads hi hphase =>
    exact hwaits.set hi rfl fun hwaits => absurd hwaits (by rw [hphase]; simp [Phase.Waits])
  | notices hi hphase | locks hi hphase
  | looks hi hphase => exact hwaits.set hi rfl fun _ => by simp [Phase.Waits]
  | @finishes i outcome execution hi hphase hallows =>
    have hexecutions : ((finish item s execution outcome).setPhase i execution .ended).executions =
        s.executions.set i { execution with phase := .ended } := by
      rw [State.setPhase, finish_executions]
    exact hwaits.set hi hexecutions fun hwaits =>
      absurd hwaits (by rw [hphase]; simp [Phase.Waits])
  | commits hi hphase => exact absurd ⟨_, _, hi, hphase⟩ hcommits
  | fails hi hphase =>
    exact hwaits.set hi rfl fun hwaits => absurd ⟨_, hi, hwaits⟩ hforgets

/-- What is noticed is to be recorded. -/
theorem noticed_step (h : step item s e = some s') (hnoticed : s.noticed = false) :
    s'.Waits ∨ s'.noticed = false := by
  cases moves_of_step h with
  | @notices i outcome execution hi hphase =>
    refine .inl ⟨{ execution with phase := .noticed }, ?_, by simp [Phase.Waits]⟩
    exact List.mem_set (List.getElem?_eq_some_iff.mp hi).1 _
  | @finishes i outcome execution hi hphase hallows =>
    refine .inr (Eq.trans ?_ hnoticed)
    cases outcome <;> simp only [finish, State.setPhase] <;> (try split) <;> simp
  | @commits i outcome execution already hi hphase =>
    refine .inr (Eq.trans ?_ hnoticed)
    cases already <;> simp [recordMissingObject, State.setPhase]
  | _ => exact .inr hnoticed

/-- **What has been noticed is recorded** when all jobs have finished, if no attempt that has
noticed it fails. -/
theorem eventually_commits (h : run (step item) s es = some t) (hs : s.Waits ∨ s.noticed = false)
    (hforgets : Always (step item) (fun s e => ¬ Forgets s e) s es) (hnoticed : t.noticed)
    (hsettled : t.Settled) : Eventually (step item) Commits s es := by
  induction es generalizing s with
  | nil =>
    cases h
    rcases hs with ⟨x, hx, hwaits⟩ | hs
    · exact absurd (by simp [hsettled x hx]) hwaits
    · exact absurd hnoticed (hs ▸ Bool.false_ne_true)
  | cons e es ih =>
    obtain ⟨s', hstep, h⟩ := run_cons.mp h
    rw [eventually_cons hstep]
    by_cases hcommits : Commits s e
    · exact .inl hcommits
    · refine .inr (ih h ?_ (hforgets.2 s' hstep))
      rcases hs with hwaits | hs
      · exact .inl (waits_step hstep hcommits hforgets.1 hwaits)
      · exact noticed_step hstep hs

/-- **The row of the item** says in the end what is told last. -/
theorem told_iff_followed (h : run (step item) s es = some t)
    (htold : Eventually (step item) (fun s e => tells s e = some true) s es) :
    t.Told ↔ Followed (step item) (fun s e => tells s e = some false)
      (fun s e => tells s e = some true) s es := by
  rw [holds_iff_followed (fun _ _ _ (_ : True) _ => trivial)
    (fun s e s' _ hstep htells => (told_step hstep).mpr (.inr htells)) ?_ ?_ trivial h]
  · exact and_iff_left (.inr htold)
  · intro s e s' _ hstep htells
    rw [told_step hstep, htells]
    simp
  · intro s e s' _ hstep hfalse htrue
    have hnone : tells s e = none := by
      cases htells : tells s e with
      | none => rfl
      | some b => cases b with
        | false => exact absurd htells hfalse
        | true => exact absurd htells htrue
    rw [told_step hstep, hnone]
    simp

/-- **Missing evidence is recorded once and stays recorded** exactly if the item is in a collection,
a transaction of `recordMissingObject` commits, as one does unless the attempts that have noticed
fail, and after what another stage writes, having read the object before, there is one again. -/
theorem stays_recorded_iff (hs : Initial item s) (h : run (step item) s es = some t)
    (hnoticed : t.noticed) (hsettled : t.Settled) :
    (Recorded item t ↔ item.collectionId ≠ none ∧ Eventually (step item) Commits s es ∧
      Followed (step item) (fun s e => tells s e = some false)
        (fun s e => tells s e = some true) s es) ∧
      (Always (step item) (fun s e => ¬ Forgets s e) s es →
        Eventually (step item) Commits s es) := by
  have hcommits (hforgets : Always (step item) (fun s e => ¬ Forgets s e) s es) :=
    eventually_commits h (.inr hs.noticed) hforgets hnoticed hsettled
  refine ⟨?_, hcommits⟩
  by_cases hcollection : item.collectionId = none
  · -- there is no ledger
    refine iff_of_false (fun hrecorded => ?_) fun h => h.1 hcollection
    have hzero := (missingRows_run h hcollection).trans hs.missingRows
    exact absurd hrecorded.1 (hzero ▸ Nat.zero_ne_one)
  · have hone := missingRows_eq_one_iff hs.sound h hcollection
    rw [hs.missingRows, or_iff_right Nat.zero_ne_one] at hone
    rw [Recorded, hone, and_iff_right hcollection]
    exact and_congr_right fun hcommits =>
      told_iff_followed h (hcommits.imp fun _ _ => tells_of_commits)

/-- A file of a collection. -/
def file : Item := ⟨js "item", .file, some (js "collection")⟩

/-- It is acquired. -/
def acquired : State where
  present := true
  processingStatus := .pending
  processingDetail := []
  malwareStatus := .notScanned
  scanned := false
  extracted := false
  ocred := false
  previewed := false
  ledger := []
  executions := []
  noticed := false

theorem acquired_initial : Initial file acquired := ⟨rfl, rfl, rfl⟩

/-- The attempts of two stages begin, and the first has read the object when it is lost. -/
def readThenLost (first second : Stage) : List Event :=
  [.start first ⟨false, js "key"⟩, .start second ⟨false, js "key"⟩, .next 0 .text, .vanish]

/-- An attempt finds no object, and records that. -/
def recording (i : ℕ) : List Event :=
  [.next i .preview, .next i .preview, .next i .preview, .next i .preview]

/-- Of two stages that find no object, after one that has read it. -/
theorem stays_recorded_iff_twice : ∃ t,
    run (step file) acquired (readThenLost .extract .preview ++ .next 0 .text ::
      .start .scan ⟨false, js "key"⟩ :: (recording 1 ++ recording 2)) = some t ∧
    Recorded file t ∧ Followed (step file) (fun s e => tells s e = some false)
      (fun s e => tells s e = some true) acquired
      (readThenLost .extract .preview ++ .next 0 .text ::
        .start .scan ⟨false, js "key"⟩ :: (recording 1 ++ recording 2)) := by
  have hruns : (run (step file) acquired (readThenLost .extract .preview ++ .next 0 .text ::
      .start .scan ⟨false, js "key"⟩ :: (recording 1 ++ recording 2))).any (fun t =>
        t.noticed = true ∧ t.Settled ∧ Recorded file t) := by
    decide +kernel
  obtain ⟨t, hrun, h⟩ := (Option.any_eq_true _ _).mp hruns
  obtain ⟨hnoticed, hsettled, hrecorded⟩ := of_decide_eq_true h
  have hiff := stays_recorded_iff acquired_initial hrun hnoticed hsettled
  exact ⟨t, hrun, hrecorded, (hiff.1.mp hrecorded).2.2⟩

/-- **A record can be written over**: the text of a file is stored after its loss is recorded. -/
theorem not_recorded : ¬ ∀ (item : Item) (s t : State) (es : List Event),
    item.collectionId ≠ none → Initial item s → run (step item) s es = some t →
      t.noticed → t.Settled → Recorded item t := by
  intro h
  have hruns : (run (step file) acquired (readThenLost .extract .preview ++
      (recording 1 ++ [.next 0 .text]))).any (fun t =>
        t.noticed = true ∧ t.Settled ∧ ¬ Recorded file t) := by
    decide +kernel
  obtain ⟨t, hrun, hnot⟩ := (Option.any_eq_true _ _).mp hruns
  obtain ⟨hnoticed, hsettled, hnot⟩ := of_decide_eq_true hnot
  exact hnot (h file acquired t _ nofun acquired_initial hrun hnoticed hsettled)

end Runs

end AegCloudDfir.Processing.MissingObject
