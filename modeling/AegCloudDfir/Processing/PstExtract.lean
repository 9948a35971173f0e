import AegCloudDfir.Collection.System
import AegCloudDfir.Js.Text

/-!
# The messages of a container

`processPstExtract` of `apps/worker/src/processors/pst-extract.ts` walks the messages of an
uploaded container. It reads once, at its start, which of them have been preserved before, and
passes over these. For every other one `preserveMessage` creates an evidence item and its
relationship to the container in one transaction, which does not look whether there is one by
then; a message that cannot be reconstructed is an exception. After `CDFIR_PST_MAX_MESSAGES`
messages of its own an execution stops, and records that it did. At last the container is
`processed`.

The machine is one container. Its messages and the cap are parameters. Any number of executions
may be under way, and any of them may end anywhere: the job of `discoverUploads` and its
redeliveries, and the recovery jobs of the sweeper. The other jobs that write the ledger (search
indexing, the sweeper and the failure handler, the action `retry`) are events too.

* `Extracted` — what is asked of the rows.
* `extracted_iff` — it holds throughout exactly the runs in which nothing is preserved a second
  time or beyond the cap, and a container with more messages than the cap is not closed before
  that is recorded.
* `extracted_of_serial` — it is enough that the container is within the cap, that executions do not
  overlap, and that no message that was preserved is marked as failed.
-/

namespace AegCloudDfir.Processing.PstExtract

open Transition
open Collection (ItemState Status)

/-! ## Rows -/

section Defs

variable {Id : Type}

/-- `PstMessageData`, as far as extraction goes. -/
structure Message (Id : Type) where
  descriptorNodeId : Id
  /-- `synthesizeEml` succeeds on it -/
  reconstructible : Bool
  oversizedAttachments : List JsString
  deriving DecidableEq

/-- `CollectionExceptionKind`, as far as it is used here. -/
inductive ExceptionKind : Type where
  | encryptedItem
  | corruptItem
  | unsupportedItem
  | apiError
  deriving DecidableEq

/-- A row of `collection_exceptions`. It names a message, or the container itself. -/
structure ExceptionRow (Id : Type) where
  providerItemId : Option Id
  kind : ExceptionKind
  message : JsString
  deriving DecidableEq

/-- The rows of one container. -/
structure Rows (Id : Type) where
  /-- of the collection -/
  status : Status
  /-- of the container's own item -/
  containerState : ItemState
  /-- The messages' evidence items, each with the message it was made from. An item is identified
  by its place. -/
  evidence : List Id
  /-- `childId` of the `container_member` relationships of the container -/
  relationships : List ℕ
  /-- the messages' own items -/
  items : List (Id × ItemState)
  exceptions : List (ExceptionRow Id)
  deriving DecidableEq

/-- A container that has been claimed, by a collection that is fetching. -/
def Rows.claimed : Rows Id := ⟨.fetching, .preserved, [], [], [], []⟩

/-- `TERMINAL_ITEM_STATES` -/
def terminalItemStates : List ItemState := [.preserved, .processed, .indexed]

/-- `INDEXABLE_LEDGER_STATES` -/
def indexableLedgerStates : List ItemState := [.preserved, .processed]

/-! ## Exceptions -/

/-- `recordException` -/
def Rows.recordException (rows : Rows Id) (providerItemId : Option Id) (kind : ExceptionKind)
    (message : JsString) : Rows Id :=
  { rows with
    exceptions := rows.exceptions ++ [⟨providerItemId, kind, message.take 1000⟩] }

/-- The container holds more messages than are extracted. -/
def capExceeded (maxMessages : ℕ) : ExceptionRow Id :=
  ⟨none, .unsupportedItem,
    (js "container holds more than the configured limit of " ++ decimal maxMessages ++
      js " messages; extraction stopped at the limit and the remainder was NOT extracted " ++
      js "(the preserved container still holds every message)").take 1000⟩

/-- An encrypted container is skipped. -/
def Rows.skip (rows : Rows Id) (error : JsString) : Rows Id :=
  { rows.recordException none .encryptedItem
      (js "container is encrypted or password-protected and was not extracted: " ++ error) with
    containerState := .skipped }

/-- One that cannot be read has failed. -/
def Rows.unreadable (rows : Rows Id) (error : JsString) : Rows Id :=
  { rows.recordException none .corruptItem (js "container could not be parsed: " ++ error) with
    containerState := .failed }

/-- And so has one whose walk breaks off. -/
def Rows.breakOff (rows : Rows Id) (extracted : ℕ) (error : JsString) : Rows Id :=
  { rows.recordException none .corruptItem
      (js "container walk failed after " ++ decimal extracted ++ js " message(s): " ++ error) with
    containerState := .failed }

/-- The message could not be reconstructed. -/
def Rows.unreconstructed (rows : Rows Id) (descriptorNodeId : Id) (error : JsString) : Rows Id :=
  rows.recordException (some descriptorNodeId) .corruptItem
    (js "message could not be reconstructed from the container: " ++ error)

/-- An attachment is left out of a message. -/
def Rows.omitAttachment (descriptorNodeId : Id) (rows : Rows Id) (filename : JsString) : Rows Id :=
  rows.recordException (some descriptorNodeId) .unsupportedItem
    (js "attachment '" ++ filename ++ js "' exceeds the per-attachment reconstruction cap and " ++
      js "was omitted from the synthesized message (it remains inside the preserved container)")

/-! ## Extracting -/

/-- What the execution finds: the messages that were preserved before, unless the job is dropped. -/
def Rows.load (rows : Rows Id) : Option (List Id) :=
  if rows.status ≠ .fetching then none
  else if 0 < rows.relationships.length ∧ rows.containerState = .processed then none
  else some ((rows.items.filter fun item => item.2 ∈ terminalItemStates).map Prod.fst)

/-- The evidence item of a message, with its relationship to the container and its own item. -/
def Rows.createEvidence [DecidableEq Id] (rows : Rows Id) (descriptorNodeId : Id) : Rows Id :=
  { rows with
    evidence := rows.evidence ++ [descriptorNodeId]
    relationships := rows.relationships ++ [rows.evidence.length]
    items :=
      if descriptorNodeId ∈ rows.items.map Prod.fst then
        rows.items.map fun item =>
          if item.1 = descriptorNodeId then (descriptorNodeId, .preserved) else item
      else rows.items ++ [(descriptorNodeId, .preserved)] }

/-- `preserveMessage` -/
def Rows.preserveMessage [DecidableEq Id] (rows : Rows Id) (msg : Message Id) : Rows Id :=
  msg.oversizedAttachments.foldl (Rows.omitAttachment msg.descriptorNodeId)
    (rows.createEvidence msg.descriptorNodeId)

/-- An execution of the job. -/
inductive Execution (Id : Type) : Type where
  /-- the rows have been read, and the container is to be opened -/
  | loaded (alreadyPreserved : List Id)
  /-- the messages that are left, and the number of those preserved -/
  | walking (alreadyPreserved : List Id) (remaining : List (Message Id)) (extracted : ℕ)
  /-- a message is reconstructed -/
  | preserving (alreadyPreserved : List Id) (msg : Message Id) (remaining : List (Message Id))
    (extracted : ℕ)
  /-- `MessageCapReached` was thrown -/
  | capReached
  /-- the container is to be closed -/
  | finished
  | over
  deriving DecidableEq

/-- What an execution does next. Errors are what `sanitizeError` makes of them. -/
inductive Act : Type where
  | openArchive
  | encrypted (error : JsString)
  | unreadable (error : JsString)
  /-- the callback of the walk comes to the next message -/
  | visit
  | preserve
  /-- the message, the store or the database fails -/
  | fail (error : JsString)
  | endWalk
  /-- the walk itself fails, or the database in the midst of it -/
  | breakOff (error : JsString)
  | recordCap
  | close
  /-- the worker is killed, or the job is to be delivered again for another reason -/
  | crash
  deriving DecidableEq

variable [DecidableEq Id] (messages : List (Message Id)) (maxMessages : ℕ)

/-- An act of an execution: the rows, and where it stands. -/
def act (rows : Rows Id) : Act → Execution Id → Option (Rows Id × Execution Id)
  | .openArchive, .loaded alreadyPreserved => some (rows, .walking alreadyPreserved messages 0)
  | .encrypted error, .loaded _ => some (rows.skip error, .over)
  | .unreadable error, .loaded _ => some (rows.unreadable error, .over)
  | .visit, .walking alreadyPreserved (msg :: remaining) extracted =>
    -- the cap is looked at before the message
    if maxMessages ≤ extracted then some (rows, .capReached)
    else if msg.descriptorNodeId ∈ alreadyPreserved then
      some (rows, .walking alreadyPreserved remaining extracted)
    else some (rows, .preserving alreadyPreserved msg remaining extracted)
  | .preserve, .preserving alreadyPreserved msg remaining extracted =>
    if msg.reconstructible then
      some (rows.preserveMessage msg, .walking alreadyPreserved remaining (extracted + 1))
    else none
  | .fail error, .preserving alreadyPreserved msg remaining extracted =>
    some (rows.unreconstructed msg.descriptorNodeId error,
      .walking alreadyPreserved remaining extracted)
  | .endWalk, .walking _ [] _ => some (rows, .finished)
  | .breakOff error, .walking _ _ extracted => some (rows.breakOff extracted error, .over)
  | .breakOff error, .preserving _ _ _ extracted => some (rows.breakOff extracted error, .over)
  | .recordCap, .capReached =>
    some ({ rows with exceptions := rows.exceptions ++ [capExceeded maxMessages] }, .finished)
  | .close, .finished => some ({ rows with containerState := .processed }, .over)
  | .crash, _ => some (rows, .over)
  | _, _ => none

/-! ## The other jobs -/

/-- Moves the item of a message, or of the container, if it is in one of the states `sources`. -/
def Rows.move (rows : Rows Id) (item : Option Id) (sources : List ItemState)
    (target : ItemState) : Rows Id :=
  let moved (state : ItemState) : ItemState := if state ∈ sources then target else state
  match item with
  | none => { rows with containerState := moved rows.containerState }
  | some id =>
    { rows with
      items := rows.items.map fun row => if row.1 = id then (id, moved row.2) else row }

/-- The database, and what is under way. -/
structure State (Id : Type) where
  rows : Rows Id
  executions : List (Execution Id)
  deriving DecidableEq

/-- Nothing extracted yet. -/
def State.start : State Id := ⟨.claimed, []⟩

/-- What can happen next. -/
inductive Event (Id : Type) : Type where
  /-- a job is delivered, for the first time or again -/
  | load
  | job (i : ℕ) (what : Act)
  /-- search indexing succeeds, or gives up -/
  | indexed (item : Option Id)
  | unindexable (item : Option Id)
  /-- the sweeper or the failure handler gives up -/
  | giveUp (item : Option Id) (reason : JsString)
  /-- the action `retry`: the item is to be indexed once more -/
  | retry (item : Option Id)
  /-- others set the status of the collection -/
  | settle (status : Status)
  deriving DecidableEq

/-- What an event does. -/
def step (s : State Id) : Event Id → Option (State Id)
  | .load =>
    match s.rows.load with
    | none => some s
    | some alreadyPreserved =>
      some { s with executions := s.executions ++ [.loaded alreadyPreserved] }
  | .job i what =>
    (s.executions[i]?).bind fun execution =>
      (act messages maxMessages s.rows what execution).map fun next =>
        ⟨next.1, s.executions.set i next.2⟩
  | .indexed item => some { s with rows := s.rows.move item indexableLedgerStates .indexed }
  | .unindexable item => some { s with rows := s.rows.move item indexableLedgerStates .failed }
  | .giveUp item reason =>
    some { s with
      rows := (s.rows.move item [.discovered, .fetching, .preserved, .processed]
        .failed).recordException item .apiError reason }
  | .retry item => some { s with rows := s.rows.move item [.failed] .preserved }
  | .settle status => some { s with rows := { s.rows with status := status } }

/-! ## Nothing lost, nothing twice -/

/-- The relationships of the evidence items that were made from a message. -/
def Rows.members (rows : Rows Id) (descriptorNodeId : Id) : List ℕ :=
  rows.relationships.filter fun childId => rows.evidence[childId]? = some descriptorNodeId

/-- It is recorded that the container holds more messages than the cap. -/
def CapRecorded (rows : Rows Id) : Prop := capExceeded maxMessages ∈ rows.exceptions

/-- What is asked of the rows, whenever one looks. -/
structure Extracted (s : State Id) : Prop where
  /-- no message is preserved twice -/
  once : ∀ id, s.rows.evidence.count id ≤ 1 ∧ (s.rows.members id).length ≤ 1
  /-- there are not more of them than the cap -/
  withinCap : s.rows.evidence.length ≤ maxMessages
  /-- every message of a processed container is accounted for -/
  accounted : s.rows.containerState = .processed → ∀ msg ∈ messages,
    (s.rows.evidence.count msg.descriptorNodeId = 1 ∧
      (s.rows.members msg.descriptorNodeId).length = 1) ∨
    (∃ row ∈ s.rows.exceptions, row.providerItemId = some msg.descriptorNodeId) ∨
    CapRecorded maxMessages s.rows
  /-- the cap is recorded exactly if it was too low -/
  capped : s.rows.containerState = .processed →
    (CapRecorded maxMessages s.rows ↔ maxMessages < messages.length)

/-- What is preserved is not there yet, and is within the cap; what is closed is within the cap or
says that it is not. -/
def Clear (s : State Id) : Event Id → Prop
  | .job i .preserve => ∀ alreadyPreserved msg remaining extracted,
    s.executions[i]? = some (.preserving alreadyPreserved msg remaining extracted) →
      msg.descriptorNodeId ∉ s.rows.evidence ∧ s.rows.evidence.length < maxMessages
  | .job _ .close => messages.length ≤ maxMessages ∨ CapRecorded maxMessages s.rows
  | _ => True

/-! ## The invariant -/

/-- A message is preserved, or an exception names it. -/
def Accounted (rows : Rows Id) (descriptorNodeId : Id) : Prop :=
  descriptorNodeId ∈ rows.evidence ∨
    ∃ row ∈ rows.exceptions, row.providerItemId = some descriptorNodeId

/-- The messages are accounted for, or the cap is recorded. -/
def Covered (rows : Rows Id) : Prop :=
  CapRecorded maxMessages rows ∨ ∀ msg ∈ messages, Accounted rows msg.descriptorNodeId

/-- Whatever the walk has come past is accounted for, and it has come past what it extracted. -/
structure Walked (rows : Rows Id) (alreadyPreserved : List Id) (remaining : List (Message Id))
    (extracted : ℕ) : Prop where
  found : alreadyPreserved ⊆ rows.evidence
  passed : ∃ walked, messages = walked ++ remaining ∧
    (∀ msg ∈ walked, Accounted rows msg.descriptorNodeId) ∧ extracted ≤ walked.length

/-- What an execution relies on. -/
def Execution.Sound (rows : Rows Id) : Execution Id → Prop
  | .loaded alreadyPreserved => alreadyPreserved ⊆ rows.evidence
  | .walking alreadyPreserved remaining extracted =>
    Walked messages rows alreadyPreserved remaining extracted
  | .preserving alreadyPreserved msg remaining extracted =>
    Walked messages rows alreadyPreserved (msg :: remaining) extracted
  | .capReached => maxMessages < messages.length
  | .finished => Covered messages maxMessages rows
  | .over => True

/-- **The invariant of the rows.** -/
structure Rows.Sound (rows : Rows Id) : Prop where
  relationships : rows.relationships = List.range rows.evidence.length
  items : rows.items.map Prod.fst ⊆ rows.evidence
  capped : CapRecorded maxMessages rows → maxMessages < messages.length
  processed : rows.containerState = .processed → Covered messages maxMessages rows

/-- **The invariant.** -/
structure Sound (s : State Id) : Prop where
  rows : s.rows.Sound messages maxMessages
  executions : ∀ execution ∈ s.executions, execution.Sound messages maxMessages s.rows

/-- Nothing is taken back. -/
structure Rows.Grows (rows rows' : Rows Id) : Prop where
  evidence : rows.evidence ⊆ rows'.evidence
  exceptions : rows.exceptions ⊆ rows'.exceptions

/-- What an event does that neither preserves nor closes anything. -/
structure Rows.Aside (rows rows' : Rows Id) : Prop where
  evidence : rows'.evidence = rows.evidence
  relationships : rows'.relationships = rows.relationships
  items : rows'.items.map Prod.fst = rows.items.map Prod.fst
  exceptions : rows.exceptions ⊆ rows'.exceptions
  capped : CapRecorded maxMessages rows' →
    CapRecorded maxMessages rows ∨ maxMessages < messages.length
  containerState : rows'.containerState = .processed → rows.containerState = .processed

/-! ## One execution at a time -/

/-- An execution starts when the others are over, and no message that was preserved is marked as
failed. -/
def Serial (s : State Id) : Event Id → Prop
  | .load => ∀ execution ∈ s.executions, execution = .over
  | .unindexable item | .giveUp item _ => item = none
  | _ => True

instance Serial.decidable (s : State Id) : ∀ e : Event Id, Decidable (Serial s e)
  | .load => inferInstanceAs (Decidable (∀ execution ∈ s.executions, execution = .over))
  | .unindexable item | .giveUp item _ => inferInstanceAs (Decidable (item = none))
  | .job _ _ | .indexed _ | .retry _ | .settle _ => isTrue trivial

/-- What was preserved is found to be preserved. -/
structure Rows.Orderly (rows : Rows Id) : Prop where
  nodup : rows.evidence.Nodup
  ids : rows.evidence ⊆ messages.map Message.descriptorNodeId
  found : ∀ id ∈ rows.evidence, ∃ item ∈ rows.items, item.1 = id ∧ item.2 ∈ terminalItemStates

/-- An execution that is alone knows what is preserved. -/
def Execution.Knows (rows : Rows Id) : Execution Id → Prop
  | .loaded alreadyPreserved => rows.evidence ⊆ alreadyPreserved
  | .walking alreadyPreserved remaining _ => ∃ walked, messages = walked ++ remaining ∧
    rows.evidence ⊆ alreadyPreserved ++ walked.map Message.descriptorNodeId
  | .preserving alreadyPreserved msg remaining _ => ∃ walked,
    messages = walked ++ msg :: remaining ∧ msg.descriptorNodeId ∉ alreadyPreserved ∧
    rows.evidence ⊆ alreadyPreserved ++ walked.map Message.descriptorNodeId
  | _ => True

/-- Only the last execution may be under way. -/
structure Orderly (s : State Id) : Prop where
  rows : s.rows.Orderly messages
  last : ∀ i execution, s.executions[i]? = some execution → execution ≠ .over →
    i + 1 = s.executions.length ∧ execution.Knows messages s.rows

end Defs

section Proofs

variable {Id : Type} [DecidableEq Id] {messages : List (Message Id)} {maxMessages : ℕ}
  {rows rows' : Rows Id}

/-! ### What is only added to -/

omit [DecidableEq Id] in
theorem Accounted.mono {id : Id} (h : Accounted rows id) (hgrows : rows.Grows rows') :
    Accounted rows' id := by
  rcases h with hevidence | ⟨row, hrow, hid⟩
  · exact .inl (hgrows.evidence hevidence)
  · exact .inr ⟨row, hgrows.exceptions hrow, hid⟩

omit [DecidableEq Id] in
theorem Covered.mono (h : Covered messages maxMessages rows) (hgrows : rows.Grows rows') :
    Covered messages maxMessages rows' := by
  rcases h with hcap | haccounted
  · exact .inl (hgrows.exceptions hcap)
  · exact .inr fun msg hmsg => (haccounted msg hmsg).mono hgrows

omit [DecidableEq Id] in
theorem Walked.mono {alreadyPreserved : List Id} {remaining : List (Message Id)} {extracted : ℕ}
    (h : Walked messages rows alreadyPreserved remaining extracted) (hgrows : rows.Grows rows') :
    Walked messages rows' alreadyPreserved remaining extracted := by
  obtain ⟨walked, hmessages, haccounted, hextracted⟩ := h.passed
  refine ⟨List.Subset.trans h.found hgrows.evidence, walked, hmessages, ?_, hextracted⟩
  exact fun msg hmsg => (haccounted msg hmsg).mono hgrows

omit [DecidableEq Id] in
/-- The walk comes past a message that is accounted for. -/
theorem Walked.next {alreadyPreserved : List Id} {msg : Message Id} {remaining : List (Message Id)}
    {extracted extracted' : ℕ}
    (h : Walked messages rows alreadyPreserved (msg :: remaining) extracted)
    (hgrows : rows.Grows rows') (hmsg : Accounted rows' msg.descriptorNodeId)
    (hextracted' : extracted' ≤ extracted + 1) :
    Walked messages rows' alreadyPreserved remaining extracted' := by
  obtain ⟨walked, hmessages, haccounted, hextracted⟩ := h.passed
  refine ⟨List.Subset.trans h.found hgrows.evidence, walked ++ [msg], ?_, ?_, ?_⟩
  · rw [hmessages, List.append_assoc, List.singleton_append]
  · intro other hother
    rcases List.mem_append.mp hother with hother | hother
    · exact (haccounted other hother).mono hgrows
    · rwa [List.mem_singleton.mp hother]
  · rw [List.length_append, List.length_singleton]
    omega

omit [DecidableEq Id] in
/-- Before the cap is reached, a message is left. -/
theorem Walked.capReached {alreadyPreserved : List Id} {msg : Message Id}
    {remaining : List (Message Id)} {extracted : ℕ}
    (h : Walked messages rows alreadyPreserved (msg :: remaining) extracted)
    (hcap : maxMessages ≤ extracted) : maxMessages < messages.length := by
  obtain ⟨walked, hmessages, -, hextracted⟩ := h.passed
  rw [hmessages, List.length_append, List.length_cons]
  omega

omit [DecidableEq Id] in
/-- At the end of the walk all messages are accounted for. -/
theorem Walked.covered {alreadyPreserved : List Id} {extracted : ℕ}
    (h : Walked messages rows alreadyPreserved [] extracted) :
    Covered messages maxMessages rows := by
  obtain ⟨walked, hmessages, haccounted, -⟩ := h.passed
  rw [List.append_nil] at hmessages
  exact .inr fun msg hmsg => haccounted msg (hmessages ▸ hmsg)

omit [DecidableEq Id] in
/-- What an execution relies on is not taken away by another one. -/
theorem Execution.Sound.mono {execution : Execution Id}
    (h : execution.Sound messages maxMessages rows) (hgrows : rows.Grows rows') :
    execution.Sound messages maxMessages rows' := by
  cases execution with
  | loaded alreadyPreserved => exact List.Subset.trans h hgrows.evidence
  | walking alreadyPreserved remaining extracted
  | preserving alreadyPreserved msg remaining extracted => exact Walked.mono h hgrows
  | capReached => exact h
  | finished => exact Covered.mono h hgrows
  | _ => trivial

omit [DecidableEq Id] in
theorem Rows.Grows.refl (rows : Rows Id) : rows.Grows rows :=
  ⟨List.Subset.refl _, List.Subset.refl _⟩

omit [DecidableEq Id] in
theorem Rows.Aside.grows (h : Rows.Aside messages maxMessages rows rows') : rows.Grows rows' :=
  ⟨h.evidence ▸ List.Subset.refl _, h.exceptions⟩

omit [DecidableEq Id] in
theorem Rows.Aside.refl (rows : Rows Id) : Rows.Aside messages maxMessages rows rows :=
  ⟨rfl, rfl, rfl, List.Subset.refl _, .inl, id⟩

omit [DecidableEq Id] in
theorem Rows.Aside.trans {rows'' : Rows Id} (h : Rows.Aside messages maxMessages rows rows')
    (h' : Rows.Aside messages maxMessages rows' rows'') :
    Rows.Aside messages maxMessages rows rows'' where
  evidence := h'.evidence.trans h.evidence
  relationships := h'.relationships.trans h.relationships
  items := h'.items.trans h.items
  exceptions := List.Subset.trans h.exceptions h'.exceptions
  capped hcapped := (h'.capped hcapped).elim h.capped .inr
  containerState hprocessed := h.containerState (h'.containerState hprocessed)

omit [DecidableEq Id] in
theorem Rows.Aside.sound (h : Rows.Aside messages maxMessages rows rows')
    (hrows : rows.Sound messages maxMessages) : rows'.Sound messages maxMessages := by
  refine ⟨?_, ?_, ?_, ?_⟩
  · rw [h.relationships, h.evidence]
    exact hrows.relationships
  · rw [h.items, h.evidence]
    exact hrows.items
  · intro hcapped
    exact (h.capped hcapped).elim hrows.capped id
  · intro hprocessed
    exact (hrows.processed (h.containerState hprocessed)).mono h.grows

/-! ### The transactions -/

omit [DecidableEq Id] in
/-- An exception of another kind, or of a message, is not the one of the cap. -/
theorem aside_recordException {item : Option Id} {kind : ExceptionKind} {message : JsString}
    (hkind : kind ≠ .unsupportedItem ∨ item ≠ none) (state : ItemState)
    (hstate : state = .processed → rows.containerState = .processed) :
    Rows.Aside messages maxMessages rows
      { rows.recordException item kind message with containerState := state } := by
  refine ⟨rfl, rfl, rfl, List.subset_append_left _ _, fun hcapped => .inl ?_, hstate⟩
  rcases List.mem_append.mp hcapped with hcapped | hcapped
  · exact hcapped
  · have heq := List.mem_singleton.mp hcapped
    rcases hkind with hkind | hitem
    · exact absurd (congrArg ExceptionRow.kind heq).symm hkind
    · exact absurd (congrArg ExceptionRow.providerItemId heq).symm hitem

omit [DecidableEq Id] in
theorem aside_skip {error : JsString} :
    Rows.Aside messages maxMessages rows (rows.skip error) :=
  aside_recordException (.inl (by decide)) _ (by rintro ⟨⟩)

omit [DecidableEq Id] in
theorem aside_unreadable {error : JsString} :
    Rows.Aside messages maxMessages rows (rows.unreadable error) :=
  aside_recordException (.inl (by decide)) _ (by rintro ⟨⟩)

omit [DecidableEq Id] in
theorem aside_breakOff {extracted : ℕ} {error : JsString} :
    Rows.Aside messages maxMessages rows (rows.breakOff extracted error) :=
  aside_recordException (.inl (by decide)) _ (by rintro ⟨⟩)

omit [DecidableEq Id] in
theorem aside_unreconstructed {id : Id} {error : JsString} :
    Rows.Aside messages maxMessages rows (rows.unreconstructed id error) :=
  aside_recordException (.inr (Option.some_ne_none id)) rows.containerState fun h => h

omit [DecidableEq Id] in
/-- Recording the cap, where it was reached. -/
theorem aside_recordCap (h : maxMessages < messages.length) :
    Rows.Aside messages maxMessages rows
      { rows with exceptions := rows.exceptions ++ [capExceeded maxMessages] } :=
  ⟨rfl, rfl, rfl, List.subset_append_left _ _, fun _ => .inr h, id⟩

/-- Other jobs move items to other states than `processed`. -/
theorem aside_move {item : Option Id} {sources : List ItemState} {target : ItemState}
    (htarget : target ≠ .processed) :
    Rows.Aside messages maxMessages rows (rows.move item sources target) := by
  cases item with
  | none =>
    refine ⟨rfl, rfl, rfl, List.Subset.refl _, .inl, ?_⟩
    intro hprocessed
    simp only [Rows.move] at hprocessed
    split_ifs at hprocessed
    · exact absurd hprocessed htarget
    · exact hprocessed
  | some id =>
    refine ⟨rfl, rfl, ?_, List.Subset.refl _, .inl, fun h => h⟩
    simp only [Rows.move, List.map_map]
    refine List.map_congr_left fun row _ => ?_
    rw [Function.comp_apply]
    split
    · next hid => exact hid.symm
    · rfl

omit [DecidableEq Id] in
/-- Attachments that are left out are exceptions of the message. -/
theorem aside_omitAttachments {id : Id} (filenames : List JsString) (rows : Rows Id) :
    Rows.Aside messages maxMessages rows (filenames.foldl (Rows.omitAttachment id) rows) := by
  induction filenames generalizing rows with
  | nil => exact .refl rows
  | cons filename filenames ih =>
    have hone : Rows.Aside messages maxMessages rows (rows.omitAttachment id filename) :=
      aside_recordException (.inr (Option.some_ne_none id)) rows.containerState fun h => h
    exact hone.trans (ih _)

theorem aside_preserveMessage {msg : Message Id} :
    Rows.Aside messages maxMessages (rows.createEvidence msg.descriptorNodeId)
      (rows.preserveMessage msg) :=
  aside_omitAttachments _ _

theorem evidence_preserveMessage {msg : Message Id} :
    (rows.preserveMessage msg).evidence = rows.evidence ++ [msg.descriptorNodeId] := by
  have h : Rows.Aside [] 0 (rows.createEvidence msg.descriptorNodeId) (rows.preserveMessage msg) :=
    aside_preserveMessage
  exact h.evidence

theorem grows_preserveMessage {msg : Message Id} : rows.Grows (rows.preserveMessage msg) := by
  have h : Rows.Aside [] 0 (rows.createEvidence msg.descriptorNodeId) (rows.preserveMessage msg) :=
    aside_preserveMessage
  refine ⟨?_, h.exceptions⟩
  rw [evidence_preserveMessage]
  exact List.subset_append_left _ _

theorem sound_createEvidence {id : Id} (hrows : rows.Sound messages maxMessages) :
    (rows.createEvidence id).Sound messages maxMessages := by
  have hgrows : rows.Grows (rows.createEvidence id) :=
    ⟨List.subset_append_left _ _, List.Subset.refl _⟩
  refine ⟨?_, ?_, hrows.capped, fun h => (hrows.processed h).mono hgrows⟩
  · simp only [Rows.createEvidence, hrows.relationships, List.length_append, List.length_singleton,
      List.range_succ]
  · have hids : (rows.createEvidence id).items.map Prod.fst ⊆ rows.items.map Prod.fst ++ [id] := by
      intro other hother
      simp only [Rows.createEvidence] at hother
      split_ifs at hother
      · obtain ⟨item, hitem, rfl⟩ := List.mem_map.mp hother
        obtain ⟨old, hold, rfl⟩ := List.mem_map.mp hitem
        split_ifs
        · exact List.mem_append_right _ (List.mem_singleton_self _)
        · exact List.mem_append_left _ (List.mem_map_of_mem hold)
      · rwa [List.map_append, List.map_singleton] at hother
    exact List.Subset.trans hids
      (List.append_subset.mpr ⟨List.Subset.trans hrows.items hgrows.evidence,
        List.subset_append_right _ _⟩)

omit [DecidableEq Id] in
theorem sound_close (hrows : rows.Sound messages maxMessages)
    (hcovered : Covered messages maxMessages rows) :
    Rows.Sound messages maxMessages { rows with containerState := .processed } :=
  ⟨hrows.relationships, hrows.items, hrows.capped, fun _ => hcovered⟩

/-! ### What an event does -/

/-- **What an act does**: it preserves a message, or closes the container, or does neither. -/
theorem act_cases {what : Act} {execution next : Execution Id}
    (hsound : execution.Sound messages maxMessages rows)
    (h : act messages maxMessages rows what execution = some (rows', next)) :
    next.Sound messages maxMessages rows' ∧
    ((∃ alreadyPreserved msg remaining extracted, what = .preserve ∧
        execution = .preserving alreadyPreserved msg remaining extracted ∧
        rows' = rows.preserveMessage msg) ∨
      (what = .close ∧ execution = .finished ∧
        rows' = { rows with containerState := .processed }) ∨
      (what ≠ .preserve ∧ what ≠ .close ∧ Rows.Aside messages maxMessages rows rows')) := by
  unfold act at h
  split at h
  · cases h
    refine ⟨⟨hsound, [], rfl, ?_, le_rfl⟩, .inr (.inr ⟨by decide, by decide, .refl rows⟩)⟩
    exact fun _ h => absurd h List.not_mem_nil
  · cases h
    exact ⟨trivial, .inr (.inr ⟨by rintro ⟨⟩, by rintro ⟨⟩, aside_skip⟩)⟩
  · cases h
    exact ⟨trivial, .inr (.inr ⟨by rintro ⟨⟩, by rintro ⟨⟩, aside_unreadable⟩)⟩
  · have hwalked : Walked _ _ _ _ _ := hsound
    split_ifs at h with hcap hpreserved
    · cases h
      exact ⟨hwalked.capReached hcap, .inr (.inr ⟨by decide, by decide, .refl rows⟩)⟩
    · cases h
      refine ⟨?_, .inr (.inr ⟨by decide, by decide, .refl rows⟩)⟩
      exact hwalked.next (.refl rows) (.inl (hwalked.found hpreserved)) (Nat.le_succ _)
    · cases h
      exact ⟨hsound, .inr (.inr ⟨by decide, by decide, .refl rows⟩)⟩
  · next alreadyPreserved msg remaining extracted =>
    split_ifs at h
    cases h
    refine ⟨?_, .inl ⟨alreadyPreserved, msg, remaining, extracted, rfl, rfl, rfl⟩⟩
    refine Walked.next hsound grows_preserveMessage (.inl ?_) le_rfl
    rw [evidence_preserveMessage]
    exact List.mem_append_right _ (List.mem_singleton_self _)
  · cases h
    refine ⟨?_, .inr (.inr ⟨by rintro ⟨⟩, by rintro ⟨⟩, aside_unreconstructed⟩)⟩
    refine Walked.next hsound ⟨List.Subset.refl _, List.subset_append_left _ _⟩ (.inr ?_)
      (Nat.le_succ _)
    exact ⟨_, List.mem_append_right _ (List.mem_singleton_self _), rfl⟩
  · cases h
    exact ⟨Walked.covered hsound, .inr (.inr ⟨by decide, by decide, .refl rows⟩)⟩
  · cases h
    exact ⟨trivial, .inr (.inr ⟨by rintro ⟨⟩, by rintro ⟨⟩, aside_breakOff⟩)⟩
  · cases h
    exact ⟨trivial, .inr (.inr ⟨by rintro ⟨⟩, by rintro ⟨⟩, aside_breakOff⟩)⟩
  · cases h
    refine ⟨.inl ?_, .inr (.inr ⟨by decide, by decide, aside_recordCap hsound⟩)⟩
    exact List.mem_append_right _ (List.mem_singleton_self _)
  · cases h
    exact ⟨trivial, .inr (.inl ⟨rfl, rfl, rfl⟩)⟩
  · cases h
    exact ⟨trivial, .inr (.inr ⟨by decide, by decide, .refl rows⟩)⟩
  · cases h

variable {s s' : State Id}

omit [DecidableEq Id] in
/-- What the job finds to be preserved is preserved. -/
theorem load_subset (hrows : rows.Sound messages maxMessages) {alreadyPreserved : List Id}
    (h : rows.load = some alreadyPreserved) : alreadyPreserved ⊆ rows.evidence := by
  unfold Rows.load at h
  split_ifs at h
  cases h
  intro id hid
  obtain ⟨item, hitem, rfl⟩ := List.mem_map.mp hid
  exact hrows.items (List.mem_map_of_mem (List.mem_of_mem_filter hitem))

omit [DecidableEq Id] in
/-- The executions, after an event that is none of theirs. -/
theorem executions_sound (hs : Sound messages maxMessages s) (hgrows : s.rows.Grows rows') :
    ∀ execution ∈ s.executions, execution.Sound messages maxMessages rows' :=
  fun execution hexecution => (hs.executions execution hexecution).mono hgrows

/-- **What an event does.** -/
theorem step_cases {e : Event Id} (hs : Sound messages maxMessages s)
    (h : step messages maxMessages s e = some s') :
    (s.rows.Grows s'.rows →
      ∀ execution ∈ s'.executions, execution.Sound messages maxMessages s'.rows) ∧
    ((∃ i alreadyPreserved msg remaining extracted, e = .job i .preserve ∧
        s.executions[i]? = some (.preserving alreadyPreserved msg remaining extracted) ∧
        s'.rows = s.rows.preserveMessage msg) ∨
      (∃ i, e = .job i .close ∧ Covered messages maxMessages s.rows ∧
        s'.rows = { s.rows with containerState := .processed }) ∨
      ((∀ i, e ≠ .job i .preserve) ∧ (∀ i, e ≠ .job i .close) ∧
        Rows.Aside messages maxMessages s.rows s'.rows)) := by
  cases e with
  | load =>
    simp only [step] at h
    split at h
    · cases h
      exact ⟨executions_sound hs, .inr (.inr ⟨by rintro i ⟨⟩, by rintro i ⟨⟩, .refl _⟩)⟩
    · next alreadyPreserved hload =>
      cases h
      refine ⟨fun _ execution hexecution => ?_,
        .inr (.inr ⟨by rintro i ⟨⟩, by rintro i ⟨⟩, .refl _⟩)⟩
      rcases List.mem_append.mp hexecution with hexecution | hexecution
      · exact hs.executions execution hexecution
      · rw [List.mem_singleton.mp hexecution]
        exact load_subset hs.rows hload
  | job i what =>
    obtain ⟨execution, hexecution, hmap⟩ := Option.bind_eq_some_iff.mp h
    obtain ⟨⟨rows', next⟩, hact, rfl⟩ := Option.map_eq_some_iff.mp hmap
    have hsound := hs.executions execution (List.mem_of_getElem? hexecution)
    obtain ⟨hnext, hcases⟩ := act_cases hsound hact
    refine ⟨fun hgrows other hother => ?_, ?_⟩
    · rcases List.mem_or_eq_of_mem_set hother with hother | rfl
      · exact executions_sound hs hgrows other hother
      · exact hnext
    · rcases hcases with ⟨alreadyPreserved, msg, remaining, extracted, rfl, rfl, rfl⟩ |
        ⟨rfl, rfl, rfl⟩ | ⟨hpreserve, hclose, haside⟩
      · exact .inl ⟨i, alreadyPreserved, msg, remaining, extracted, rfl, hexecution, rfl⟩
      · exact .inr (.inl ⟨i, rfl, hsound, rfl⟩)
      · refine .inr (.inr ⟨?_, ?_, haside⟩)
        · rintro j ⟨⟩
          exact hpreserve rfl
        · rintro j ⟨⟩
          exact hclose rfl
  | indexed item | unindexable item | retry item =>
    cases h
    exact ⟨executions_sound hs,
      .inr (.inr ⟨by rintro i ⟨⟩, by rintro i ⟨⟩, aside_move (by decide)⟩)⟩
  | giveUp item reason =>
    cases h
    refine ⟨executions_sound hs, .inr (.inr ⟨by rintro i ⟨⟩, by rintro i ⟨⟩, ?_⟩)⟩
    have hmoved : Rows.Aside messages maxMessages s.rows
        (s.rows.move item [.discovered, .fetching, .preserved, .processed] .failed) :=
      aside_move (by decide)
    exact hmoved.trans (aside_recordException (.inl (by decide)) _ fun h => h)
  | settle status =>
    cases h
    refine ⟨executions_sound hs, .inr (.inr ⟨by rintro i ⟨⟩, by rintro i ⟨⟩, ?_⟩)⟩
    exact ⟨rfl, rfl, rfl, List.Subset.refl _, .inl, fun h => h⟩

theorem sound_step {e : Event Id} (hs : Sound messages maxMessages s)
    (h : step messages maxMessages s e = some s') : Sound messages maxMessages s' := by
  obtain ⟨hexecutions, ⟨i, _, msg, _, _, -, -, hrows⟩ | ⟨i, -, hcovered, hrows⟩ | ⟨-, -, haside⟩⟩ :=
    step_cases hs h
  · have hgrows : s.rows.Grows s'.rows := hrows ▸ grows_preserveMessage
    refine ⟨?_, hexecutions hgrows⟩
    rw [hrows]
    exact Rows.Aside.sound aside_preserveMessage (sound_createEvidence hs.rows)
  · have hgrows : s.rows.Grows s'.rows := by
      rw [hrows]
      exact ⟨List.Subset.refl _, List.Subset.refl _⟩
    refine ⟨?_, hexecutions hgrows⟩
    rw [hrows]
    exact sound_close hs.rows hcovered
  · exact ⟨haside.sound hs.rows, hexecutions haside.grows⟩

/-! ### Counting -/

/-- Every place of a list, counted by what stands there. -/
theorem length_filter_range_getElem? (l : List Id) (id : Id) :
    ((List.range l.length).filter fun n => l[n]? = some id).length = l.count id := by
  induction l using List.reverseRecOn with
  | nil => rfl
  | append_singleton l last ih =>
    have hinit : (List.range l.length).filter (fun n => (l ++ [last])[n]? = some id) =
        (List.range l.length).filter fun n => l[n]? = some id := by
      refine List.filter_congr fun n hn => ?_
      rw [List.getElem?_append_left (List.mem_range.mp hn)]
    rw [List.length_append, List.length_singleton, List.range_succ, List.filter_append, hinit,
      List.length_append, ih, List.count_append]
    by_cases h : last = id <;> simp [h]

/-- An evidence item has one relationship. -/
theorem length_members (hrows : rows.Sound messages maxMessages) (id : Id) :
    (rows.members id).length = rows.evidence.count id := by
  rw [Rows.members, hrows.relationships, length_filter_range_getElem?]

/-- Under the invariant, three things are asked for. -/
theorem extracted_iff_of_sound (hs : Sound messages maxMessages s) :
    Extracted messages maxMessages s ↔ s.rows.evidence.Nodup ∧
      s.rows.evidence.length ≤ maxMessages ∧ (s.rows.containerState = .processed →
        messages.length ≤ maxMessages ∨ CapRecorded maxMessages s.rows) := by
  refine ⟨?_, ?_⟩
  · intro h
    refine ⟨List.nodup_iff_count_le_one.mpr fun id => (h.once id).1, h.withinCap, ?_⟩
    intro hprocessed
    exact (Nat.lt_or_ge maxMessages messages.length).symm.imp_right (h.capped hprocessed).mpr
  · rintro ⟨hnodup, hcap, hcapped⟩
    have honce := List.nodup_iff_count_le_one.mp hnodup
    refine ⟨fun id => ⟨honce id, (length_members hs.rows id).trans_le (honce id)⟩, hcap, ?_, ?_⟩
    · intro hprocessed msg hmsg
      rcases hs.rows.processed hprocessed with hrecorded | haccounted
      · exact .inr (.inr hrecorded)
      · rcases haccounted msg hmsg with hevidence | hexception
        · have hcount := List.count_eq_one_of_mem hnodup hevidence
          exact .inl ⟨hcount, (length_members hs.rows _).trans hcount⟩
        · exact .inr (.inl hexception)
    · intro hprocessed
      refine ⟨hs.rows.capped, fun hlt => (hcapped hprocessed).resolve_left ?_⟩
      exact Nat.not_le.mpr hlt

theorem extracted_start : Extracted messages maxMessages (State.start : State Id) where
  once _ := ⟨Nat.zero_le _, Nat.zero_le _⟩
  withinCap := Nat.zero_le _
  accounted := by rintro ⟨⟩
  capped := by rintro ⟨⟩

omit [DecidableEq Id] in
theorem sound_start : Sound messages maxMessages (State.start : State Id) where
  rows := ⟨rfl, List.Subset.refl _, fun h => absurd h List.not_mem_nil, by rintro ⟨⟩⟩
  executions _ h := absurd h List.not_mem_nil

/-- An event keeps what is asked for exactly if it is clear. -/
theorem extracted_step {e : Event Id} (hs : Sound messages maxMessages s)
    (hgood : Extracted messages maxMessages s) (h : step messages maxMessages s e = some s') :
    Extracted messages maxMessages s' ↔ Clear messages maxMessages s e := by
  obtain ⟨hnodup, hcap, hcapped⟩ := (extracted_iff_of_sound hs).mp hgood
  rw [extracted_iff_of_sound (sound_step hs h)]
  obtain ⟨-, ⟨i, alreadyPreserved, msg, remaining, extracted, rfl, hexecution, hrows⟩ |
    ⟨i, rfl, hcovered, hrows⟩ | ⟨hpreserve, hclose, haside⟩⟩ := step_cases hs h
  · have haside : Rows.Aside messages maxMessages (s.rows.createEvidence msg.descriptorNodeId)
        s'.rows := hrows ▸ aside_preserveMessage
    rw [haside.evidence]
    refine ⟨?_, ?_⟩
    · rintro ⟨hnodup', hcap', -⟩ alreadyPreserved' msg' remaining' extracted' hexecution'
      cases Option.some.inj (hexecution.symm.trans hexecution')
      refine ⟨fun hmem => ?_, ?_⟩
      · exact (List.nodup_append.mp hnodup').2.2 _ hmem _ (List.mem_singleton_self _) rfl
      · rw [Rows.createEvidence, List.length_append, List.length_singleton] at hcap'
        exact hcap'
    · intro hclear
      obtain ⟨hnew, hlt⟩ := hclear alreadyPreserved msg remaining extracted hexecution
      refine ⟨?_, ?_, ?_⟩
      · rw [Rows.createEvidence, ← List.concat_eq_append]
        exact hnodup.concat hnew
      · rw [Rows.createEvidence, List.length_append, List.length_singleton]
        exact hlt
      · intro hprocessed
        exact (hcapped (haside.containerState hprocessed)).imp_right fun h => haside.exceptions h
  · rw [hrows]
    refine ⟨?_, ?_⟩
    · rintro ⟨-, -, hcapped'⟩
      exact hcapped' rfl
    · intro hclear
      exact ⟨hnodup, hcap, fun _ => hclear⟩
  · have hclear : Clear messages maxMessages s e := by
      cases e with
      | job i what =>
        cases what with
        | preserve => exact absurd rfl (hpreserve i)
        | close => exact absurd rfl (hclose i)
        | _ => trivial
      | _ => trivial
    refine iff_of_true ?_ hclear
    rw [haside.evidence]
    refine ⟨hnodup, hcap, fun hprocessed => ?_⟩
    exact (hcapped (haside.containerState hprocessed)).imp_right fun h => haside.exceptions h

/-- **No message is lost, and none is extracted twice**, and the cap is kept and recorded,
throughout exactly the runs in which whatever is preserved was not there before and was within the
cap, and a container with more messages than the cap is not closed by an execution that was not
stopped by it. -/
theorem extracted_iff {es : List (Event Id)} {t : State Id}
    (h : run (step messages maxMessages) State.start es = some t) :
    Throughout (step messages maxMessages) (Extracted messages maxMessages) State.start es ↔
      Always (step messages maxMessages) (Clear messages maxMessages) State.start es :=
  throughout_iff_always (fun _ _ _ => sound_step) (fun _ _ _ => extracted_step) sound_start
    extracted_start h

/-! ### Executions that do not overlap -/

omit [DecidableEq Id] in
theorem not_mem_of_knows (hdistinct : (messages.map Message.descriptorNodeId).Nodup)
    {alreadyPreserved : List Id} {msg : Message Id} {remaining : List (Message Id)} {extracted : ℕ}
    (h : Execution.Knows messages rows (.preserving alreadyPreserved msg remaining extracted)) :
    msg.descriptorNodeId ∉ rows.evidence := by
  obtain ⟨walked, hmessages, hnew, hevidence⟩ := h
  intro hmem
  rcases List.mem_append.mp (hevidence hmem) with hbefore | hwalked
  · exact hnew hbefore
  · rw [hmessages, List.map_append, List.map_cons] at hdistinct
    exact (List.nodup_append.mp hdistinct).2.2 _ hwalked _ List.mem_cons_self rfl

omit [DecidableEq Id] in
theorem items_omitAttachments {id : Id} (filenames : List JsString) (rows : Rows Id) :
    (filenames.foldl (Rows.omitAttachment id) rows).items = rows.items := by
  induction filenames generalizing rows with
  | nil => rfl
  | cons filename filenames ih => exact ih _

/-- A message that is preserved is found to be, and so are those before it. -/
theorem found_createEvidence {id other : Id}
    (h : other = id ∨ ∃ item ∈ rows.items, item.1 = other ∧ item.2 ∈ terminalItemStates) :
    ∃ item ∈ (rows.createEvidence id).items, item.1 = other ∧ item.2 ∈ terminalItemStates := by
  simp only [Rows.createEvidence]
  by_cases hid : other = id
  · subst hid
    have hpreserved : ItemState.preserved ∈ terminalItemStates := by decide
    refine ⟨(other, .preserved), ?_, rfl, hpreserved⟩
    split_ifs with hitem
    · obtain ⟨item, hitem, hid⟩ := List.mem_map.mp hitem
      exact List.mem_map.mpr ⟨item, hitem, if_pos hid⟩
    · exact List.mem_append_right _ (List.mem_singleton_self _)
  · obtain ⟨item, hitem, rfl, hstate⟩ := h.resolve_left hid
    refine ⟨item, ?_, rfl, hstate⟩
    split_ifs
    · exact List.mem_map.mpr ⟨item, hitem, if_neg hid⟩
    · exact List.mem_append_left _ hitem

theorem orderly_preserveMessage {msg : Message Id} (hrows : rows.Orderly messages)
    (hmsg : msg ∈ messages) (hnew : msg.descriptorNodeId ∉ rows.evidence) :
    (rows.preserveMessage msg).Orderly messages := by
  refine ⟨?_, ?_, ?_⟩
  · rw [evidence_preserveMessage, ← List.concat_eq_append]
    exact hrows.nodup.concat hnew
  · rw [evidence_preserveMessage]
    refine List.append_subset.mpr ⟨hrows.ids, ?_⟩
    rintro id hid
    rw [List.mem_singleton.mp hid]
    exact List.mem_map_of_mem hmsg
  · intro id hid
    rw [Rows.preserveMessage, items_omitAttachments]
    rw [evidence_preserveMessage] at hid
    refine found_createEvidence ?_
    rcases List.mem_append.mp hid with hid | hid
    · exact .inr (hrows.found id hid)
    · exact .inl (List.mem_singleton.mp hid)

/-- An item is found if it is moved to a state it is looked for in. -/
theorem orderly_move {item : Option Id} {sources : List ItemState} {target : ItemState}
    (hrows : rows.Orderly messages) (htarget : item = none ∨ target ∈ terminalItemStates) :
    (rows.move item sources target).Orderly messages := by
  cases item with
  | none => exact ⟨hrows.nodup, hrows.ids, hrows.found⟩
  | some id =>
    have hterminal : target ∈ terminalItemStates := htarget.resolve_left (Option.some_ne_none id)
    refine ⟨hrows.nodup, hrows.ids, fun other hother => ?_⟩
    obtain ⟨row, hrow, hid, hstate⟩ := hrows.found other hother
    refine ⟨_, List.mem_map_of_mem hrow, ?_⟩
    by_cases hsame : row.1 = id
    · rw [if_pos hsame]
      refine ⟨hsame.symm.trans hid, ?_⟩
      show (if row.2 ∈ sources then target else row.2) ∈ terminalItemStates
      split_ifs
      · exact hterminal
      · exact hstate
    · rw [if_neg hsame]
      exact ⟨hid, hstate⟩

/-- An act of an execution that is alone. -/
theorem act_orderly (hdistinct : (messages.map Message.descriptorNodeId).Nodup) {what : Act}
    {execution next : Execution Id} (hrows : rows.Orderly messages)
    (hknows : execution.Knows messages rows)
    (h : act messages maxMessages rows what execution = some (rows', next)) :
    rows'.Orderly messages ∧ next.Knows messages rows' := by
  unfold act at h
  split at h
  · cases h
    exact ⟨hrows, [], rfl, List.subset_append_of_subset_left _ hknows⟩
  · cases h
    exact ⟨⟨hrows.nodup, hrows.ids, hrows.found⟩, trivial⟩
  · cases h
    exact ⟨⟨hrows.nodup, hrows.ids, hrows.found⟩, trivial⟩
  · next alreadyPreserved msg remaining extracted =>
    obtain ⟨walked, hmessages, hevidence⟩ := hknows
    split_ifs at h with hcap hpreserved
    · cases h
      exact ⟨hrows, trivial⟩
    · cases h
      refine ⟨hrows, walked ++ [msg], ?_, ?_⟩
      · rw [hmessages, List.append_assoc, List.singleton_append]
      · rw [List.map_append, ← List.append_assoc]
        exact List.subset_append_of_subset_left _ hevidence
    · cases h
      exact ⟨hrows, walked, hmessages, hpreserved, hevidence⟩
  · next alreadyPreserved msg remaining extracted =>
    split_ifs at h
    cases h
    have hnew := not_mem_of_knows hdistinct hknows
    obtain ⟨walked, hmessages, -, hevidence⟩ := hknows
    have hmsg : msg ∈ messages := by
      rw [hmessages]
      exact List.mem_append_right _ List.mem_cons_self
    refine ⟨orderly_preserveMessage hrows hmsg hnew, walked ++ [msg], ?_, ?_⟩
    · rw [hmessages, List.append_assoc, List.singleton_append]
    · rw [evidence_preserveMessage, List.map_append, ← List.append_assoc, List.map_singleton]
      exact List.append_subset.mpr ⟨List.subset_append_of_subset_left _ hevidence,
        List.subset_append_right _ _⟩
  · next alreadyPreserved msg remaining extracted =>
    cases h
    obtain ⟨walked, hmessages, -, hevidence⟩ := hknows
    refine ⟨⟨hrows.nodup, hrows.ids, hrows.found⟩, walked ++ [msg], ?_, ?_⟩
    · rw [hmessages, List.append_assoc, List.singleton_append]
    · rw [List.map_append, ← List.append_assoc]
      exact List.subset_append_of_subset_left _ hevidence
  · cases h
    exact ⟨hrows, trivial⟩
  · cases h
    exact ⟨⟨hrows.nodup, hrows.ids, hrows.found⟩, trivial⟩
  · cases h
    exact ⟨⟨hrows.nodup, hrows.ids, hrows.found⟩, trivial⟩
  · cases h
    exact ⟨⟨hrows.nodup, hrows.ids, hrows.found⟩, trivial⟩
  · cases h
    exact ⟨⟨hrows.nodup, hrows.ids, hrows.found⟩, trivial⟩
  · cases h
    exact ⟨hrows, trivial⟩
  · cases h

omit [DecidableEq Id] in
/-- An execution knows what it knew, if nothing was preserved. -/
theorem Execution.Knows.of_evidence {execution : Execution Id}
    (h : execution.Knows messages rows) (hevidence : rows'.evidence = rows.evidence) :
    execution.Knows messages rows' := by
  cases execution with
  | loaded alreadyPreserved => exact (hevidence ▸ h : rows'.evidence ⊆ alreadyPreserved)
  | walking alreadyPreserved remaining extracted =>
    obtain ⟨walked, hmessages, hsubset⟩ := h
    exact ⟨walked, hmessages, hevidence ▸ hsubset⟩
  | preserving alreadyPreserved msg remaining extracted =>
    obtain ⟨walked, hmessages, hnew, hsubset⟩ := h
    exact ⟨walked, hmessages, hnew, hevidence ▸ hsubset⟩
  | _ => trivial

/-- Nothing comes of an execution that is over. -/
theorem act_over {what : Act} {next : Execution Id}
    (h : act messages maxMessages rows what .over = some (rows', next)) :
    rows' = rows ∧ next = .over := by
  cases what with
  | crash =>
    cases h
    exact ⟨rfl, rfl⟩
  | _ => cases h

theorem orderly_job (hdistinct : (messages.map Message.descriptorNodeId).Nodup)
    (hs : Orderly messages s) {i : ℕ} {what : Act} {execution next : Execution Id}
    (hexecution : s.executions[i]? = some execution)
    (hact : act messages maxMessages s.rows what execution = some (rows', next)) :
    Orderly messages ⟨rows', s.executions.set i next⟩ := by
  have hi : i < s.executions.length := (List.getElem?_eq_some_iff.mp hexecution).1
  by_cases hover : execution = .over
  · subst hover
    obtain ⟨rfl, rfl⟩ := act_over hact
    have hset : s.executions.set i .over = s.executions := by
      conv_rhs => rw [← List.set_getElem_self hi]
      rw [(List.getElem?_eq_some_iff.mp hexecution).2]
    rw [hset]
    exact hs
  · obtain ⟨hlast, hknows⟩ := hs.last i execution hexecution hover
    obtain ⟨hrows, hnext⟩ := act_orderly hdistinct hs.rows hknows hact
    refine ⟨hrows, fun j other hother hne => ?_⟩
    by_cases hj : j = i
    · subst hj
      rw [List.getElem?_set_self hi] at hother
      obtain rfl := Option.some.inj hother
      exact ⟨hlast.trans List.length_set.symm, hnext⟩
    · -- the last execution is the one that acts
      rw [List.getElem?_set_ne (Ne.symm hj)] at hother
      have hlast' := (hs.last j other hother hne).1
      exact absurd (Nat.succ.inj (hlast'.trans hlast.symm)) hj

theorem orderly_step (hdistinct : (messages.map Message.descriptorNodeId).Nodup) {e : Event Id}
    (hs : Orderly messages s) (hserial : Serial s e) (h : step messages maxMessages s e = some s') :
    Orderly messages s' := by
  have hother : ∀ rows' : Rows Id, rows'.Orderly messages → rows'.evidence = s.rows.evidence →
      Orderly messages { s with rows := rows' } := by
    intro rows' hrows' hevidence
    refine ⟨hrows', fun i execution hexecution hne => ?_⟩
    obtain ⟨hlast, hknows⟩ := hs.last i execution hexecution hne
    exact ⟨hlast, hknows.of_evidence hevidence⟩
  have hmove : ∀ (item : Option Id) sources target,
      (s.rows.move item sources target).evidence = s.rows.evidence := by
    intro item sources target
    cases item <;> rfl
  cases e with
  | load =>
    simp only [step] at h
    split at h
    · cases h
      exact hs
    · next alreadyPreserved hload =>
      cases h
      refine ⟨hs.rows, fun i execution hexecution hne => ?_⟩
      rw [List.getElem?_append] at hexecution
      split_ifs at hexecution with hlt
      · exact absurd (hserial execution (List.mem_of_getElem? hexecution)) hne
      · rw [List.getElem?_singleton] at hexecution
        split_ifs at hexecution with hzero
        cases hexecution
        refine ⟨?_, ?_⟩
        · rw [List.length_append, List.length_singleton]
          omega
        · unfold Rows.load at hload
          split_ifs at hload
          cases hload
          intro id hid
          obtain ⟨item, hitem, rfl, hstate⟩ := hs.rows.found id hid
          refine List.mem_map_of_mem (List.mem_filter.mpr ⟨hitem, ?_⟩)
          exact decide_eq_true hstate
  | job i what =>
    obtain ⟨execution, hexecution, hmap⟩ := Option.bind_eq_some_iff.mp h
    obtain ⟨⟨rows', next⟩, hact, rfl⟩ := Option.map_eq_some_iff.mp hmap
    exact orderly_job hdistinct hs hexecution hact
  | indexed item | retry item =>
    cases h
    exact hother _ (orderly_move hs.rows (.inr (by decide))) (hmove _ _ _)
  | unindexable item =>
    cases h
    exact hother _ (orderly_move hs.rows (.inl hserial)) (hmove _ _ _)
  | giveUp item reason =>
    cases h
    obtain rfl : item = none := hserial
    exact hother _ ⟨hs.rows.nodup, hs.rows.ids, hs.rows.found⟩ rfl
  | settle status =>
    cases h
    exact hother _ ⟨hs.rows.nodup, hs.rows.ids, hs.rows.found⟩ rfl

omit [DecidableEq Id] in
theorem orderly_start : Orderly messages (State.start : State Id) where
  rows := ⟨List.nodup_nil, List.nil_subset _, fun _ h => absurd h List.not_mem_nil⟩
  last i execution h := by
    rw [State.start, List.getElem?_nil] at h
    cases h

/-- **It is enough that executions do not overlap**, that no message that was preserved is marked
as failed, and that the container is within the cap. -/
theorem extracted_of_serial (hdistinct : (messages.map Message.descriptorNodeId).Nodup)
    (hcap : messages.length ≤ maxMessages) {es : List (Event Id)}
    (h : Always (step messages maxMessages) Serial State.start es) :
    Always (step messages maxMessages) (Clear messages maxMessages) State.start es := by
  refine h.imp (fun _ _ _ hinv hserial hs => orderly_step hdistinct hinv hserial hs) ?_
    orderly_start
  intro s e hinv _
  cases e with
  | job i what =>
    cases what with
    | preserve =>
      intro alreadyPreserved msg remaining extracted hexecution
      have hknows := (hinv.last i _ hexecution (by rintro ⟨⟩)).2
      have hnew := not_mem_of_knows hdistinct hknows
      obtain ⟨walked, hmessages, -⟩ := hknows
      have hmsg : msg ∈ messages := by
        rw [hmessages]
        exact List.mem_append_right _ List.mem_cons_self
      -- one more is still among the messages
      have hnext := orderly_preserveMessage hinv.rows hmsg hnew
      have hlength := hnext.nodup.length_le_of_subset hnext.ids
      rw [evidence_preserveMessage, List.length_append, List.length_map] at hlength
      exact ⟨hnew, hlength.trans hcap⟩
    | close => exact .inl hcap
    | _ => trivial
  | _ => trivial

end Proofs

/-! ### Two executions of one container -/

/-- A message that can be reconstructed. -/
def letter (descriptorNodeId : ℕ) : Message ℕ := ⟨descriptorNodeId, true, []⟩

/-- The recovery job of the sweeper starts beside an execution that is slow. -/
def recovered : List (Event ℕ) :=
  [.load, .job 0 .openArchive, .load, .job 1 .openArchive, .job 0 .visit, .job 1 .visit,
    .job 0 .preserve, .job 0 .endWalk, .job 0 .close, .job 1 .preserve]

/-- **The only message of the container is preserved twice.** -/
theorem recovered_not_extracted :
    ∃ t, run (step [letter 1] 10) State.start recovered = some t ∧
      ¬ Extracted [letter 1] 10 t := by
  have hrun : (run (step [letter 1] 10) State.start recovered).map (fun t => t.rows.evidence) =
      some [1, 1] := by decide
  obtain ⟨t, ht, hevidence⟩ := Option.map_eq_some_iff.mp hrun
  refine ⟨t, ht, fun h => ?_⟩
  have honce := (h.once 1).1
  rw [hevidence] at honce
  exact absurd honce (by decide)

/-- An execution is killed after the first of two messages, and the job is delivered again. -/
def redelivered : List (Event ℕ) :=
  ([.load, .job 0 .openArchive, .job 0 .visit, .job 0 .preserve, .job 0 .crash] :
      List (Event ℕ)) ++
    ([.load, .job 1 .openArchive, .job 1 .visit, .job 1 .visit, .job 1 .preserve, .job 1 .endWalk,
      .job 1 .close, .load] : List (Event ℕ))

/-- The second execution starts when the first is over. -/
theorem redelivered_serial :
    Always (step [letter 1, letter 2] 10) Serial State.start redelivered := by decide

theorem redelivered_extracted :
    ∃ t, run (step [letter 1, letter 2] 10) State.start redelivered = some t ∧
      t.rows.evidence = [1, 2] ∧ t.rows.containerState = .processed ∧
      Throughout (step [letter 1, letter 2] 10) (Extracted [letter 1, letter 2] 10) State.start
        redelivered := by
  have hrun : (run (step [letter 1, letter 2] 10) State.start redelivered).map
      (fun t => (t.rows.evidence, t.rows.containerState)) = some ([1, 2], .processed) := by decide
  obtain ⟨t, ht, hrows⟩ := Option.map_eq_some_iff.mp hrun
  obtain ⟨hevidence, hstate⟩ := Prod.mk.inj hrows
  refine ⟨t, ht, hevidence, hstate, (extracted_iff ht).mpr ?_⟩
  exact extracted_of_serial (by decide) (by decide) redelivered_serial

end AegCloudDfir.Processing.PstExtract
