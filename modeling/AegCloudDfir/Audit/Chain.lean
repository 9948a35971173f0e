import Mathlib.Logic.Function.Basic
import AegCloudDfir.Audit.Column

/-!
# The audit hash chain

`packages/database/src/audit.ts`: how an event is hashed, what `appendAuditEvent`
writes, and how `verifyAuditChain` walks a tenant's events page by page.

SHA-256 is a parameter, a function from the text that is hashed to the hex digest.
The table is a list of rows; `findMany` is what the database answers to the
queries of the two functions.

The paginated walk is the single pass `checkEvent` over the tenant's events in
order (`verifyAuditChain_eq`), and the single pass accepts exactly the rows that are
`Chained`. Both the completeness and the tamper evidence of the chain are proved
about `Chained`.
-/

namespace AegCloudDfir

variable {N : Type}

/-- `GENESIS_HASH`, the hash of the empty chain head. -/
def genesisHash : JsString := List.replicate 64 0x30

/-- `summary` of an input: an object. -/
structure Summary (N : Type) where
  /-- its properties -/
  entries : List (JsString × JsVal N)
  /-- it is a JavaScript object -/
  wellKeyed : WellKeyed (.obj entries)

/-- `AuditEventInput`. -/
structure AuditEventInput (N : Type) where
  tenantId : JsString
  actorUserId : Option JsString
  actorDisplay : Option JsString
  effectiveRoles : Option (List JsString)
  action : JsString
  targetType : Option JsString
  targetId : Option JsString
  requestId : Option JsString
  ipAddress : Option JsString
  userAgent : Option JsString
  summary : Option (Summary N)

/-- `HashableEvent`, over the type its summary has: a JavaScript value when the
event is hashed, a column value when it is stored. `occurredAt` is in
milliseconds. -/
structure HashableEvent (J : Type) where
  tenantId : JsString
  sequence : ℤ
  actorUserId : JsString
  actorDisplay : JsString
  effectiveRoles : List JsString
  action : JsString
  targetType : JsString
  targetId : JsString
  requestId : JsString
  ipAddress : JsString
  userAgent : JsString
  summary : J
  occurredAt : ℤ

namespace HashableEvent

/-- The same event with another summary. -/
def withSummary {J K : Type} (e : HashableEvent J) (summary : K) : HashableEvent K where
  tenantId := e.tenantId
  sequence := e.sequence
  actorUserId := e.actorUserId
  actorDisplay := e.actorDisplay
  effectiveRoles := e.effectiveRoles
  action := e.action
  targetType := e.targetType
  targetId := e.targetId
  requestId := e.requestId
  ipAddress := e.ipAddress
  userAgent := e.userAgent
  summary := summary
  occurredAt := e.occurredAt

/-- The properties of the object that is hashed. -/
def entries (e : HashableEvent (JsVal N)) : List (JsString × JsVal N) :=
  [(js "tenantId", .str e.tenantId),
    (js "sequence", .bigint e.sequence),
    (js "actorUserId", .str e.actorUserId),
    (js "actorDisplay", .str e.actorDisplay),
    (js "effectiveRoles", .arr (e.effectiveRoles.map .str)),
    (js "action", .str e.action),
    (js "targetType", .str e.targetType),
    (js "targetId", .str e.targetId),
    (js "requestId", .str e.requestId),
    (js "ipAddress", .str e.ipAddress),
    (js "userAgent", .str e.userAgent),
    (js "summary", e.summary),
    (js "occurredAt", .date (some e.occurredAt))]

end HashableEvent

/-- A row of `audit_events`. -/
structure AuditRow (N : Type) where
  /-- the primary key -/
  id : ℕ
  /-- the columns that are hashed -/
  event : HashableEvent (JsonValue N)
  prevEventHash : JsString
  eventHash : JsString

variable [JsNumber N] (sha256 : JsString → JsString)

/-- `computeEventHash`: SHA-256 of the previous hash followed by the canonical JSON. -/
def computeEventHash (prevEventHash : JsString) (e : HashableEvent (JsVal N)) :
    Except JsError JsString := do
  let text ← Database.canonicalJson (.obj e.entries)
  pure (sha256 (prevEventHash ++ text))

/-! ## Queries -/

/-- `where: { tenantId }`. -/
def ofTenant (tenantId : JsString) (table : List (AuditRow N)) : List (AuditRow N) :=
  table.filter fun r => r.event.tenantId = tenantId

/-- `where: { tenantId }, orderBy: { sequence: 'asc' }`. -/
def tenantEvents (table : List (AuditRow N)) (tenantId : JsString) : List (AuditRow N) :=
  (ofTenant tenantId table).insertionSort fun a b => a.event.sequence ≤ b.event.sequence

/-- `findFirst` with `orderBy: { sequence: 'desc' }`. -/
def findHead (table : List (AuditRow N)) (tenantId : JsString) : Option (AuditRow N) :=
  ((ofTenant tenantId table).insertionSort
    fun a b => b.event.sequence ≤ a.event.sequence).head?

/-- `findMany` with `take`, and `skip: 1` from the cursor if there is one. -/
def findMany (table : List (AuditRow N)) (tenantId : JsString) (take : ℕ)
    (cursor : Option ℕ) : List (AuditRow N) :=
  match cursor with
  | none => (tenantEvents table tenantId).take take
  | some id => (((tenantEvents table tenantId).dropWhile fun r => r.id ≠ id).drop 1).take take

/-! ## `appendAuditEvent` -/

/-- Why nothing was appended. -/
inductive AppendError : Type where
  /-- hashing threw -/
  | threw : JsError → AppendError
  /-- the summary cannot be stored -/
  | notStored : AppendError

/-- The event `appendAuditEvent` hashes. -/
def hashable (head : Option (AuditRow N)) (input : AuditEventInput N) (now : ℤ) :
    HashableEvent (JsVal N) where
  tenantId := input.tenantId
  sequence := (head.map fun r => r.event.sequence).getD 0 + 1
  actorUserId := input.actorUserId.getD []
  actorDisplay := input.actorDisplay.getD []
  effectiveRoles := input.effectiveRoles.getD []
  action := input.action
  targetType := input.targetType.getD []
  targetId := input.targetId.getD []
  requestId := input.requestId.getD []
  ipAddress := input.ipAddress.getD []
  userAgent := input.userAgent.getD []
  summary := .obj ((input.summary.map Summary.entries).getD [])
  occurredAt := now

/-- `appendAuditEvent` once it has the lock: the row it creates, given the rows it
can see, the time and a fresh id. -/
def appendAuditEvent (column : JsonColumn N) (visible : List (AuditRow N))
    (input : AuditEventInput N) (now : ℤ) (id : ℕ) : Except AppendError (AuditRow N) :=
  let head := findHead visible input.tenantId
  let prevEventHash := (head.map AuditRow.eventHash).getD genesisHash
  let event := hashable head input now
  match computeEventHash sha256 prevEventHash event with
  | .error e => .error (.threw e)
  | .ok eventHash =>
    match column.store event.summary with
    | none => .error .notStored
    | some summary => .ok { id, event := event.withSummary summary, prevEventHash, eventHash }

/-! ## `verifyAuditChain` -/

/-- `AuditChainVerification`. -/
structure AuditChainVerification where
  valid : Bool
  checkedCount : ℕ
  firstInvalidSequence : Option ℤ
  reason : JsString
  deriving DecidableEq

/-- The loop variables of `verifyAuditChain`. -/
structure ChainCheck where
  prevHash : JsString
  expectedSequence : ℤ
  checkedCount : ℕ
  deriving DecidableEq

/-- How the walk over the events ends early. -/
inductive Stop : Type where
  /-- with a verdict -/
  | verdict : AuditChainVerification → Stop
  /-- with an exception -/
  | threw : JsError → Stop

/-- What is hashed again when a row is verified; `event.summary ?? \x7b\x7d`. -/
def AuditRow.rehashed (r : AuditRow N) : HashableEvent (JsVal N) :=
  r.event.withSummary (if r.event.summary.val.isNullish then .obj [] else r.event.summary.val)

/-- The body of the inner loop. -/
def checkEvent (c : ChainCheck) (r : AuditRow N) : Except Stop ChainCheck :=
  if r.event.sequence ≠ c.expectedSequence then
    .error (.verdict
      { valid := false
        checkedCount := c.checkedCount
        firstInvalidSequence := some r.event.sequence
        reason := js "sequence gap: expected " ++ decimalInt c.expectedSequence ++
          js ", found " ++ decimalInt r.event.sequence })
  else if r.prevEventHash ≠ c.prevHash then
    .error (.verdict
      { valid := false
        checkedCount := c.checkedCount
        firstInvalidSequence := some r.event.sequence
        reason := js "prev_event_hash does not match prior event hash" })
  else
    match computeEventHash sha256 c.prevHash r.rehashed with
    | .error e => .error (.threw e)
    | .ok recomputed =>
      if recomputed ≠ r.eventHash then
        .error (.verdict
          { valid := false
            checkedCount := c.checkedCount
            firstInvalidSequence := some r.event.sequence
            reason := js "event content does not match stored hash" })
      else
        .ok
          { prevHash := r.eventHash
            expectedSequence := c.expectedSequence + 1
            checkedCount := c.checkedCount + 1 }

/-- The outer loop, one page a round, for at most `fuel` rounds. -/
def checkPages (table : List (AuditRow N)) (tenantId : JsString) (pageSize : ℕ) :
    ℕ → Option ℕ → ChainCheck → Option (Except Stop ChainCheck)
  | 0, _, _ => none
  | fuel + 1, cursor, c =>
    let page := findMany table tenantId pageSize cursor
    match page.getLast? with
    | none => some (.ok c)
    | some last =>
      match page.foldlM (checkEvent sha256) c with
      | .error stop => some (.error stop)
      | .ok c =>
        if page.length < pageSize then some (.ok c)
        else checkPages table tenantId pageSize fuel (some last.id) c

/-- The values the loop variables start with. -/
def ChainCheck.start : ChainCheck where
  prevHash := genesisHash
  expectedSequence := 1
  checkedCount := 0

/-- What the walk returns. -/
def verdict : Except Stop ChainCheck → Except JsError AuditChainVerification
  | .ok c => .ok
      { valid := true
        checkedCount := c.checkedCount
        firstInvalidSequence := none
        reason := [] }
  | .error (.verdict v) => .ok v
  | .error (.threw e) => .error e

/-- `verifyAuditChain`. No run has more rounds than there are rows, plus one. -/
def verifyAuditChain (table : List (AuditRow N)) (tenantId : JsString) (pageSize : ℕ) :
    Option (Except JsError AuditChainVerification) :=
  (checkPages sha256 table tenantId pageSize (table.length + 1) none .start).map verdict

/-! ## The text that is hashed -/

section Text

variable {sha256}

/-- The tree the text of an event spells, before its keys are sorted. -/
def HashableEvent.trees (e : HashableEvent (JsVal N)) : List (JsString × Json N) :=
  e.entries.map fun x => (x.1, canonical x.2)

omit [JsNumber N] in
/-- Only the summary can be something that is not serializable. -/
theorem HashableEvent.serializable {e : HashableEvent (JsVal N)} (h : Serializable e.summary) :
    Serializable (.obj e.entries) := by
  refine .obj fun x hx _ => ?_
  simp only [HashableEvent.entries, List.mem_cons, List.not_mem_nil, or_false] at hx
  rcases hx with rfl | rfl | rfl | rfl | rfl | rfl | rfl | rfl | rfl | rfl | rfl | rfl | rfl
  · exact .str _
  · exact .bigint _
  · exact .str _
  · exact .str _
  · refine .arr fun y hy _ => ?_
    obtain ⟨role, -, rfl⟩ := List.mem_map.mp hy
    exact .str role
  · exact .str _
  · exact .str _
  · exact .str _
  · exact .str _
  · exact .str _
  · exact .str _
  · exact h
  · exact .date _

omit [JsNumber N] in
theorem HashableEvent.defined_entries {e : HashableEvent (JsVal N)}
    (h : e.summary.isUndefined = false) :
    (e.entries.filter fun x => !x.2.isUndefined) = e.entries := by
  refine List.filter_eq_self.mpr fun x hx => ?_
  simp only [HashableEvent.entries, List.mem_cons, List.not_mem_nil, or_false] at hx
  rcases hx with rfl | rfl | rfl | rfl | rfl | rfl | rfl | rfl | rfl | rfl | rfl | hx | rfl
  case inr.inr.inr.inr.inr.inr.inr.inr.inr.inr.inr.inl =>
    rw [hx, h]
    rfl
  all_goals rfl

/-- **The text of an event** spells its tree. -/
theorem canonicalJson_entries {e : HashableEvent (JsVal N)} (h : Serializable e.summary)
    (hu : e.summary.isUndefined = false) :
    Database.canonicalJson (.obj e.entries) = .ok (Json.obj (sortByKey e.trees)).render := by
  have htrees : canonicalEntries e.entries = e.trees := by
    rw [canonicalEntries_eq, HashableEvent.defined_entries hu]
    rfl
  rw [Database.canonicalJson, Database.serialize_eq (HashableEvent.serializable h),
    Evidence.serialize_eq (HashableEvent.serializable h), canonical, htrees]
  rfl

theorem computeEventHash_eq (prevEventHash : JsString) {e : HashableEvent (JsVal N)}
    (h : Serializable e.summary) (hu : e.summary.isUndefined = false) :
    computeEventHash sha256 prevEventHash e =
      .ok (sha256 (prevEventHash ++ (Json.obj (sortByKey e.trees)).render)) := by
  rw [computeEventHash, canonicalJson_entries h hu]
  rfl

omit [JsNumber N] in
/-- Summaries with one tree make events with one tree. -/
theorem HashableEvent.trees_withSummary {J : Type} {e : HashableEvent J} {v w : JsVal N}
    (h : canonical v = canonical w) : (e.withSummary v).trees = (e.withSummary w).trees := by
  simp only [HashableEvent.trees, HashableEvent.entries, HashableEvent.withSummary, List.map_cons,
    List.map_nil, h]

end Text

/-! ## Chains -/

/-- The rows continue a chain whose head is `prev`, with sequence numbers from
`next` on. -/
def Chained : JsString → ℤ → List (AuditRow N) → Prop
  | _, _, [] => True
  | prev, next, r :: rs =>
    r.event.sequence = next ∧ r.prevEventHash = prev ∧
      computeEventHash sha256 prev r.rehashed = .ok r.eventHash ∧
      Chained r.eventHash (next + 1) rs

/-- The head of the chain after the rows. -/
def headHash (prev : JsString) (rows : List (AuditRow N)) : JsString :=
  (rows.getLast?.map AuditRow.eventHash).getD prev

variable {sha256}

omit [JsNumber N] in
@[simp] theorem headHash_nil (prev : JsString) : headHash (N := N) prev [] = prev := rfl

omit [JsNumber N] in
@[simp] theorem headHash_cons (prev : JsString) (r : AuditRow N) (rs : List (AuditRow N)) :
    headHash prev (r :: rs) = headHash r.eventHash rs := by
  rcases rs with _ | ⟨s, rs⟩
  · rfl
  · rw [headHash, headHash, List.getLast?_cons_cons]
    rcases h : (s :: rs).getLast? with _ | t
    · exact absurd (List.getLast?_eq_none_iff.mp h) (List.cons_ne_nil _ _)
    · rfl

/-- What one round of the inner loop accepts. -/
theorem checkEvent_eq_ok {c d : ChainCheck} {r : AuditRow N} :
    checkEvent sha256 c r = .ok d ↔
      r.event.sequence = c.expectedSequence ∧ r.prevEventHash = c.prevHash ∧
        computeEventHash sha256 c.prevHash r.rehashed = .ok r.eventHash ∧
        d = ⟨r.eventHash, c.expectedSequence + 1, c.checkedCount + 1⟩ := by
  rw [checkEvent]
  by_cases hseq : r.event.sequence = c.expectedSequence
  · by_cases hprev : r.prevEventHash = c.prevHash
    · rcases hhash : computeEventHash sha256 c.prevHash r.rehashed with e | recomputed
      · simp [hseq, hprev]
      · by_cases heq : recomputed = r.eventHash
        · simp [hseq, hprev, heq, eq_comm]
        · simp [hseq, hprev, heq]
    · simp [hseq, hprev]
  · simp [hseq]

/-- **The inner loop accepts exactly the chained rows.** -/
theorem foldlM_checkEvent_eq_ok {c d : ChainCheck} {rows : List (AuditRow N)} :
    rows.foldlM (checkEvent sha256) c = .ok d ↔
      Chained sha256 c.prevHash c.expectedSequence rows ∧
        d = ⟨headHash c.prevHash rows, c.expectedSequence + rows.length,
          c.checkedCount + rows.length⟩ := by
  induction rows generalizing c with
  | nil =>
    obtain ⟨prev, next, count⟩ := c
    simp [Chained, pure, Except.pure, eq_comm]
  | cons r rs ih =>
    rw [List.foldlM_cons, Chained]
    rcases hc : checkEvent sha256 c r with stop | c'
    · refine iff_of_false (by rintro ⟨⟩) ?_
      rintro ⟨⟨hseq, hprev, hhash, -⟩, -⟩
      rw [checkEvent_eq_ok.mpr ⟨hseq, hprev, hhash, rfl⟩] at hc
      cases hc
    · obtain ⟨hseq, hprev, hhash, rfl⟩ := checkEvent_eq_ok.mp hc
      refine ih.trans ?_
      have hnext : c.expectedSequence + 1 + (rs.length : ℤ) =
          c.expectedSequence + ((r :: rs).length : ℤ) := by
        rw [List.length_cons]
        omega
      have hcount : c.checkedCount + 1 + rs.length = c.checkedCount + (r :: rs).length := by
        rw [List.length_cons]
        omega
      rw [headHash_cons, ← hnext, ← hcount]
      simp only [hseq, hprev, hhash, true_and]

theorem checkEvent_verdict {c : ChainCheck} {r : AuditRow N} {v : AuditChainVerification}
    (h : checkEvent sha256 c r = .error (.verdict v)) : v.valid = false := by
  rw [checkEvent] at h
  split_ifs at h
  · cases h
    rfl
  · cases h
    rfl
  · rcases hhash : computeEventHash sha256 c.prevHash r.rehashed with e | recomputed
    · rw [hhash] at h
      cases h
    · simp only [hhash] at h
      split_ifs at h
      cases h
      rfl

/-- A verdict returned from inside the loop is that the chain is invalid. -/
theorem foldlM_checkEvent_verdict {c : ChainCheck} {rows : List (AuditRow N)}
    {v : AuditChainVerification}
    (h : rows.foldlM (checkEvent sha256) c = .error (.verdict v)) : v.valid = false := by
  induction rows generalizing c with
  | nil => cases h
  | cons r rs ih =>
    rw [List.foldlM_cons] at h
    rcases hc : checkEvent sha256 c r with stop | c'
    · rw [hc] at h
      cases h
      exact checkEvent_verdict hc
    · rw [hc] at h
      exact ih h

theorem Chained.append {prev : JsString} {next : ℤ} {xs ys : List (AuditRow N)} :
    Chained sha256 prev next (xs ++ ys) ↔
      Chained sha256 prev next xs ∧
        Chained sha256 (headHash prev xs) (next + xs.length) ys := by
  induction xs generalizing prev next with
  | nil => simp [Chained]
  | cons r rs ih =>
    have hnext : next + 1 + (rs.length : ℤ) = next + ((r :: rs).length : ℤ) := by
      rw [List.length_cons]
      omega
    rw [List.cons_append, Chained, Chained, ih, headHash_cons, hnext]
    simp only [and_assoc]

/-- Sequence numbers run from `next` on without gaps. -/
theorem Chained.sequence {prev : JsString} {next : ℤ} {rows : List (AuditRow N)}
    (h : Chained sha256 prev next rows) :
    rows.map (fun r => r.event.sequence) =
      (List.range rows.length).map fun i : ℕ => next + (i : ℤ) := by
  induction rows generalizing prev next with
  | nil => rfl
  | cons r rs ih =>
    obtain ⟨hseq, -, -, hrest⟩ := h
    rw [List.map_cons, ih hrest, List.length_cons, List.range_succ_eq_map, List.map_cons,
      List.map_map, hseq]
    refine congrArg₂ List.cons (by simp) (List.map_congr_left fun i _ => ?_)
    simp only [Function.comp_apply, Nat.succ_eq_add_one]
    omega

/-- The last sequence number of a chain is how many rows it has. -/
theorem Chained.last_sequence {rows : List (AuditRow N)}
    (h : Chained sha256 genesisHash 1 rows) :
    (rows.getLast?.map fun r => r.event.sequence).getD 0 = rows.length := by
  rcases List.eq_nil_or_concat rows with rfl | ⟨init, last, rfl⟩
  · rfl
  · rw [List.concat_eq_append] at h ⊢
    obtain ⟨-, hseq, -⟩ := Chained.append.mp h
    rw [List.getLast?_append, List.getLast?_singleton, Option.some_or, Option.map_some,
      Option.getD_some, hseq, List.length_append, List.length_singleton]
    omega

/-- Every row holds the hash of the row before it. -/
theorem Chained.prevEventHash {prev : JsString} {next : ℤ} {rows : List (AuditRow N)}
    (h : Chained sha256 prev next rows) :
    rows.map AuditRow.prevEventHash = (prev :: rows.map AuditRow.eventHash).dropLast := by
  induction rows generalizing prev next with
  | nil => rfl
  | cons r rs ih =>
    obtain ⟨-, hprev, -, hrest⟩ := h
    rw [List.map_cons, ih hrest, hprev]
    rfl

theorem Chained.le_sequence {prev : JsString} {next : ℤ} {rows : List (AuditRow N)}
    (h : Chained sha256 prev next rows) : ∀ r ∈ rows, next ≤ r.event.sequence := by
  induction rows generalizing prev next with
  | nil =>
    intro r hr
    cases hr
  | cons s rs ih =>
    obtain ⟨hseq, -, -, hrest⟩ := h
    intro r hr
    rcases List.mem_cons.mp hr with rfl | hr
    · exact hseq.ge
    · have := ih hrest r hr
      omega

/-- A chain is in strict order of its sequence numbers. -/
theorem Chained.pairwise {prev : JsString} {next : ℤ} {rows : List (AuditRow N)}
    (h : Chained sha256 prev next rows) :
    rows.Pairwise fun a b => a.event.sequence < b.event.sequence := by
  induction rows generalizing prev next with
  | nil => exact .nil
  | cons r rs ih =>
    obtain ⟨hseq, -, -, hrest⟩ := h
    refine .cons (fun s hs => ?_) (ih hrest)
    have := hrest.le_sequence s hs
    omega

omit [JsNumber N] in
theorem ofTenant_append (tenantId : JsString) (xs ys : List (AuditRow N)) :
    ofTenant tenantId (xs ++ ys) = ofTenant tenantId xs ++ ofTenant tenantId ys :=
  List.filter_append ..

/-- A chain in the table is in the order the queries return it. -/
theorem Chained.tenantEvents_eq {prev : JsString} {next : ℤ} {tenantId : JsString}
    {table : List (AuditRow N)} (h : Chained sha256 prev next (ofTenant tenantId table)) :
    tenantEvents table tenantId = ofTenant tenantId table :=
  (h.pairwise.imp fun hlt => hlt.le).insertionSort_eq

/-- Two rows of a chain with one sequence number are one row. -/
theorem Chained.eq_of_sequence {prev : JsString} {next : ℤ} {rows : List (AuditRow N)}
    (h : Chained sha256 prev next rows) {a b : AuditRow N} (ha : a ∈ rows) (hb : b ∈ rows)
    (hab : a.event.sequence = b.event.sequence) : a = b := by
  have hnodup : (rows.map fun r => r.event.sequence).Nodup :=
    List.pairwise_map.mpr (h.pairwise.imp fun hlt => hlt.ne)
  exact List.inj_on_of_nodup_map hnodup ha hb hab

/-- The head an append reads is the last event of the chain. -/
theorem Chained.findHead_eq {prev : JsString} {next : ℤ} {tenantId : JsString}
    {table : List (AuditRow N)} (h : Chained sha256 prev next (ofTenant tenantId table)) :
    findHead table tenantId = (ofTenant tenantId table).getLast? := by
  let desc : AuditRow N → AuditRow N → Prop := fun a b => b.event.sequence ≤ a.event.sequence
  have : Std.Total desc := ⟨fun a b => le_total b.event.sequence a.event.sequence⟩
  have : IsTrans (AuditRow N) desc := ⟨fun _ _ _ hab hbc => le_trans hbc hab⟩
  have hdesc : (ofTenant tenantId table).insertionSort desc =
      (ofTenant tenantId table).reverse := by
    refine List.Perm.eq_of_pairwise (fun a b ha hb hab hba => ?_)
      (List.pairwise_insertionSort desc _)
      (List.pairwise_reverse.mpr (h.pairwise.imp fun hlt => hlt.le))
      ((List.perm_insertionSort desc _).trans (List.reverse_perm _).symm)
    exact h.eq_of_sequence ((List.mem_insertionSort desc).mp ha) (List.mem_reverse.mp hb)
      (le_antisymm hba hab)
  rw [findHead, hdesc, List.head?_reverse]

/-! ## Pages -/

omit [JsNumber N] in
/-- Behind the cursor comes what has not been read. -/
theorem drop_dropWhile_of_nodup {done rest : List (AuditRow N)} {last : AuditRow N}
    (hid : ((done ++ [last] ++ rest).map AuditRow.id).Nodup) :
    ((done ++ [last] ++ rest).dropWhile fun r => r.id ≠ last.id).drop 1 = rest := by
  induction done with
  | nil => simp
  | cons r done ih =>
    have hne : r.id ≠ last.id := by
      intro h
      rw [List.cons_append, List.cons_append, List.map_cons, List.nodup_cons] at hid
      refine hid.1 (List.mem_map.mpr ⟨last, ?_, h.symm⟩)
      simp
    rw [List.cons_append, List.cons_append, List.dropWhile_cons_of_pos (by simpa using hne)]
    exact ih (List.nodup_cons.mp hid).2

/-- **The walk over the pages is one pass over what is left of the events.** -/
theorem checkPages_eq {table : List (AuditRow N)} {tenantId : JsString} {pageSize : ℕ}
    (hsize : 1 ≤ pageSize) (hid : ((tenantEvents table tenantId).map AuditRow.id).Nodup)
    {fuel : ℕ} {done rest : List (AuditRow N)} {c : ChainCheck}
    (hrows : tenantEvents table tenantId = done ++ rest) (hfuel : rest.length < fuel) :
    checkPages sha256 table tenantId pageSize fuel (done.getLast?.map AuditRow.id) c =
      some (rest.foldlM (checkEvent sha256) c) := by
  induction fuel generalizing done rest c with
  | zero => exact absurd hfuel (Nat.not_lt_zero _)
  | succ fuel ih =>
    have hpage : findMany table tenantId pageSize (done.getLast?.map AuditRow.id) =
        rest.take pageSize := by
      rcases List.eq_nil_or_concat done with rfl | ⟨done, last, rfl⟩
      · rw [List.nil_append] at hrows
        rw [← hrows]
        rfl
      · rw [List.concat_eq_append] at hrows ⊢
        rw [hrows] at hid
        simp only [List.getLast?_append, List.getLast?_singleton, Option.some_or, Option.map_some,
          findMany]
        rw [hrows, drop_dropWhile_of_nodup hid]
    rw [checkPages]
    simp only [hpage]
    rcases hlast : (rest.take pageSize).getLast? with _ | last
    · -- an empty page: nothing was left
      have hrest : rest = [] := by
        rcases List.take_eq_nil_iff.mp (List.getLast?_eq_none_iff.mp hlast) with h | h
        · omega
        · exact h
      rw [hrest]
      rfl
    · have hsplit : rest.foldlM (checkEvent sha256) c =
          (rest.take pageSize).foldlM (checkEvent sha256) c >>= fun c =>
            (rest.drop pageSize).foldlM (checkEvent sha256) c := by
        rw [← List.foldlM_append, List.take_append_drop]
      rw [hsplit]
      rcases hfold : (rest.take pageSize).foldlM (checkEvent sha256) c with stop | c'
      · rfl
      · by_cases hshort : (rest.take pageSize).length < pageSize
        · have hdrop : rest.drop pageSize = [] := by
            rw [List.length_take] at hshort
            exact List.drop_eq_nil_of_le (by omega)
          simp only [hshort, if_true, hdrop]
          rfl
        · simp only [hshort, if_false]
          have hdone : tenantEvents table tenantId =
              (done ++ rest.take pageSize) ++ rest.drop pageSize := by
            rw [List.append_assoc, List.take_append_drop, hrows]
          have hcursor : (done ++ rest.take pageSize).getLast?.map AuditRow.id = some last.id := by
            rw [List.getLast?_append, hlast]
            rfl
          rw [← hcursor]
          rw [List.length_take] at hshort
          refine ih hdone ?_
          rw [List.length_drop]
          omega

omit [JsNumber N] in
theorem length_tenantEvents (table : List (AuditRow N)) (tenantId : JsString) :
    (tenantEvents table tenantId).length ≤ table.length := by
  rw [tenantEvents, List.length_insertionSort]
  exact List.length_filter_le _ _

/-- **Pagination does not matter**: `verifyAuditChain` returns, and what it returns is
the verdict of one pass over the tenant's events in order. -/
theorem verifyAuditChain_eq {table : List (AuditRow N)} {tenantId : JsString} {pageSize : ℕ}
    (hsize : 1 ≤ pageSize) (hid : ((tenantEvents table tenantId).map AuditRow.id).Nodup) :
    verifyAuditChain sha256 table tenantId pageSize =
      some (verdict ((tenantEvents table tenantId).foldlM (checkEvent sha256) .start)) := by
  have hlen := length_tenantEvents table tenantId
  have hrows : tenantEvents table tenantId = [] ++ tenantEvents table tenantId := rfl
  rw [verifyAuditChain]
  exact congrArg (Option.map verdict)
    (checkPages_eq (c := .start) hsize hid hrows (Nat.lt_succ_of_le hlen))

/-- **The verdict is valid exactly on chains**, and then counts every event. -/
theorem verifyAuditChain_valid_iff {table : List (AuditRow N)} {tenantId : JsString}
    {pageSize : ℕ} (hsize : 1 ≤ pageSize)
    (hid : ((tenantEvents table tenantId).map AuditRow.id).Nodup) {v : AuditChainVerification} :
    (verifyAuditChain sha256 table tenantId pageSize = some (.ok v) ∧ v.valid = true) ↔
      Chained sha256 genesisHash 1 (tenantEvents table tenantId) ∧
        v = ⟨true, (tenantEvents table tenantId).length, none, []⟩ := by
  rw [verifyAuditChain_eq hsize hid]
  rcases hfold : (tenantEvents table tenantId).foldlM (checkEvent sha256) .start with stop | c
  · refine iff_of_false ?_ ?_
    · rintro ⟨hv, hvalid⟩
      cases stop with
      | verdict w =>
        cases hv
        rw [foldlM_checkEvent_verdict hfold] at hvalid
        cases hvalid
      | threw e => cases hv
    · rintro ⟨hchain, -⟩
      rw [foldlM_checkEvent_eq_ok.mpr ⟨hchain, rfl⟩] at hfold
      cases hfold
  · obtain ⟨hchain, rfl⟩ := foldlM_checkEvent_eq_ok.mp hfold
    have hcount : ChainCheck.start.checkedCount + (tenantEvents table tenantId).length =
        (tenantEvents table tenantId).length := Nat.zero_add _
    simp only [verdict, hcount, Option.some.injEq, Except.ok.injEq]
    refine ⟨?_, ?_⟩
    · rintro ⟨rfl, -⟩
      exact ⟨hchain, rfl⟩
    · rintro ⟨-, rfl⟩
      exact ⟨rfl, rfl⟩

end AegCloudDfir
