import AegCloudDfir.Collection.Ledger
import AegCloudDfir.Js.Text
import AegCloudDfir.Lib.Transition

/-!
# The attachments of an email

`processParse` of `apps/worker/src/processors/process-parse.ts` reads the email, and goes on
unless it was parsed. It parses the message, uploads the attachments, and then stores a child
and a relationship for each of them, together with the status `parsed`, in one transaction.
Nothing in that transaction looks at the status again.

The machine is one email. Any number of executions may start at any time (the job of
`fetch-item`, its redeliveries, the recovery jobs of the sweeper, the job of a retry), and
between its two transactions an execution is nothing but one that has found the email not
parsed. All of them read the same bytes, so what the parser says is a parameter.

* `Once` — every attachment has at most one child and one relationship, and exactly one when
  an execution has completed.
* `attachmentsOnce_iff` — that is so exactly if no execution stores a family where there is one.
* `alone_of_serial` — it is enough that executions do not overlap, and that none of them starts
  on an email whose status was set back.
-/

namespace AegCloudDfir.Processing

open Transition
open Collection (ProcessingStatus)

variable {Id : Type}

/-! ## Rows -/

/-- `StagedAttachment`: what the parser says about an attachment, and its uploaded bytes. -/
structure Attachment where
  filename : JsString
  contentType : JsString
  contentId : Option JsString
  isInline : Bool
  sha256 : JsString
  size : ℕ
  deriving DecidableEq

/-- A row of `evidence_items` for an attachment. -/
structure Child (Id : Type) where
  id : Id
  name : JsString
  mimeType : JsString
  size : ℕ
  sha256 : JsString
  deriving DecidableEq

/-- `RelationshipKind`. -/
inductive RelationshipKind : Type where
  | attachment
  | inlineAttachment
  deriving DecidableEq

/-- A row of `evidence_relationships` whose parent is the email. -/
structure Relationship (Id : Type) where
  childId : Id
  kind : RelationshipKind
  detail : JsString
  deriving DecidableEq

/-- The child of an attachment. -/
def childOf (id : Id) (attachment : Attachment) : Child Id where
  id
  name := attachment.filename.take 500
  mimeType := attachment.contentType
  size := attachment.size
  sha256 := attachment.sha256

/-- The relationship of an attachment. -/
def relationshipOf (id : Id) (attachment : Attachment) : Relationship Id where
  childId := id
  kind := if attachment.isInline then .inlineAttachment else .attachment
  detail := attachment.contentId.getD []

/-! ## The machine -/

/-- What the parser makes of the bytes: the attachments, unless they cannot be parsed. -/
abbrev Message := Option (List Attachment)

/-- An email. -/
structure State (Id : Type) where
  processingStatus : ProcessingStatus
  /-- `processingDetail` says that the object is missing -/
  objectMissing : Bool
  children : List (Child Id)
  relationships : List (Relationship Id)
  /-- executions that have found the email not parsed -/
  executions : ℕ
  /-- sweepers that have found it `pending` -/
  sweepers : ℕ
  /-- executions that have returned with the email parsed; nothing reads them but the
  specification -/
  completed : ℕ

/-- A new email. -/
def State.acquired : State Id := ⟨.pending, false, [], [], 0, 0, 0⟩

/-- `DONE_STATUSES`. -/
def isDone (status : ProcessingStatus) : Bool :=
  status = .parsed ∨ status = .extracted ∨ status = .ocrComplete ∨ status = .previewReady ∨
    status = .indexed

/-- What comes next. -/
inductive Event (Id : Type) : Type where
  /-- an execution reads the email -/
  | load
  /-- an execution stores the family, under new ids -/
  | commit (ids : List Id)
  /-- an execution cannot parse the message: `markException` -/
  | refuse
  /-- an execution does not find the object: `recordMissingObject` -/
  | loseObject
  | crash
  /-- `search.index` is through -/
  | index
  /-- another stage does not find the object -/
  | stageLosesObject
  /-- the sweeper finds the email `pending` -/
  | sweep
  /-- it gives up -/
  | giveUp
  /-- the action `retry` -/
  | retry

variable [DecidableEq Id]

/-- One transaction, if it can come next. -/
def step (message : Message) (s : State Id) : Event Id → Option (State Id)
  | .load =>
    if isDone s.processingStatus then some { s with completed := s.completed + 1 }
    else some { s with executions := s.executions + 1 }
  | .commit ids =>
    match message with
    | none => none
    | some attachments =>
      if s.executions = 0 ∨ ids.length ≠ attachments.length ∨ ¬ ids.Nodup ∨
          (∃ id ∈ ids, id ∈ s.children.map (·.id)) then none
      else
        some { s with
          processingStatus := .parsed
          objectMissing := false
          children := s.children ++ ids.zipWith childOf attachments
          relationships := s.relationships ++ ids.zipWith relationshipOf attachments
          executions := s.executions - 1
          completed := s.completed + 1 }
  | .refuse =>
    if s.executions = 0 ∨ message ≠ none then none
    else
      some { s with
        processingStatus := .exception
        objectMissing := false
        executions := s.executions - 1 }
  | .loseObject =>
    if s.executions = 0 then none
    else
      some { s with
        processingStatus := .exception
        objectMissing := true
        executions := s.executions - 1 }
  | .crash => some { s with executions := s.executions - 1 }
  | .index =>
    if isDone s.processingStatus then some { s with processingStatus := .indexed } else some s
  | .stageLosesObject => some { s with processingStatus := .exception, objectMissing := true }
  | .sweep =>
    if s.processingStatus = .pending then some { s with sweepers := s.sweepers + 1 } else some s
  | .giveUp =>
    if s.sweepers = 0 then none
    else some { s with processingStatus := .exception, sweepers := s.sweepers - 1 }
  | .retry =>
    if s.processingStatus = .exception ∧ ¬ s.objectMissing then
      some { s with processingStatus := .pending }
    else some s

/-! ## Exactly once -/

omit [DecidableEq Id] in
/-- The children and relationships are those of the `chosen` attachments. -/
def Family (s : State Id) (chosen : List Attachment) : Prop :=
  ∃ ids : List Id, ids.Nodup ∧ ids.length = chosen.length ∧
    s.children = ids.zipWith childOf chosen ∧ s.relationships = ids.zipWith relationshipOf chosen

omit [DecidableEq Id] in
/-- **The specification**: every attachment has at most one child and one relationship, and
exactly one when an execution has completed. -/
def Once (attachments : List Attachment) (s : State Id) : Prop :=
  ∃ chosen, Family s chosen ∧ chosen.Subperm attachments ∧
    (0 < s.completed → chosen.Perm attachments)

omit [DecidableEq Id] in
/-- No execution stores a family where there is one. -/
def Alone (s : State Id) : Event Id → Prop
  | .commit _ => s.executions ≠ 0 → s.children = []
  | _ => True

omit [DecidableEq Id] in
/-- **The invariant**: the family was stored some number of times, and at least once if
anything says so. -/
def Stored (attachments : List Attachment) (k : ℕ) (s : State Id) : Prop :=
  Family s (List.replicate k attachments).flatten ∧
    (isDone s.processingStatus → 0 < k) ∧ (0 < s.completed → 0 < k)

section Specification

omit [DecidableEq Id]

variable {attachments chosen : List Attachment} {k : ℕ} {s s' : State Id}

theorem stored_acquired : Stored attachments 0 (State.acquired : State Id) :=
  ⟨⟨[], List.nodup_nil, rfl, rfl, rfl⟩, nofun, nofun⟩

theorem Family.length_children (h : Family s chosen) : s.children.length = chosen.length := by
  obtain ⟨ids, -, hlength, hchildren, -⟩ := h
  rw [hchildren, List.length_zipWith, hlength, min_self]

theorem Family.of_rows (h : Family s chosen) (hchildren : s'.children = s.children)
    (hrelationships : s'.relationships = s.relationships) : Family s' chosen := by
  rw [Family, hchildren, hrelationships]
  exact h

/-- There are children if and only if there is something to store and it was stored. -/
theorem Stored.children_eq_nil (h : Stored attachments k s) :
    s.children = [] ↔ k = 0 ∨ attachments = [] := by
  rw [← List.length_eq_zero_iff, h.1.length_children, List.length_flatten, List.map_replicate,
    List.sum_replicate, smul_eq_mul, mul_eq_zero, List.length_eq_zero_iff]

/-- The specification allows for one family. -/
theorem Stored.once_iff (h : Stored attachments k s) :
    Once attachments s ↔ k ≤ 1 ∨ attachments = [] := by
  refine ⟨?_, ?_⟩
  · rintro ⟨chosen, hchosen, hsub, -⟩
    have hlength : k * attachments.length ≤ attachments.length := by
      have hle := hsub.length_le
      rw [← hchosen.length_children, h.1.length_children, List.length_flatten, List.map_replicate,
        List.sum_replicate, smul_eq_mul] at hle
      exact hle
    by_contra hnot
    obtain ⟨hk, hnil⟩ := not_or.mp hnot
    have hpos : 0 < attachments.length := List.length_pos_iff.mpr hnil
    exact hk (Nat.le_of_mul_le_mul_right (by rw [one_mul]; exact hlength) hpos)
  · intro hk
    obtain ⟨hfamily, -, hcompleted⟩ := h
    refine ⟨_, hfamily, ?_, fun hpos => ?_⟩
    · rcases hk with hk | rfl
      · interval_cases k
        · exact List.nil_subperm
        · rw [List.replicate_one, List.flatten_singleton]
      · simp
    · have hstored := hcompleted hpos
      rcases hk with hk | rfl
      · obtain rfl : k = 1 := Nat.le_antisymm hk hstored
        simp
      · simp

end Specification

/-! ## Executions -/

variable {message : Message} {s s' : State Id} {k : ℕ}

omit [DecidableEq Id] in
theorem map_id_zipWith {ids : List Id} {chosen : List Attachment} (h : ids.length = chosen.length) :
    (ids.zipWith childOf chosen).map (·.id) = ids := by
  induction ids generalizing chosen with
  | nil => rfl
  | cons id ids ih =>
    cases chosen with
    | nil => cases h
    | cons attachment chosen => exact congrArg (id :: ·) (ih (Nat.succ.inj h))

omit [DecidableEq Id] in
/-- New children under new ids. -/
theorem Family.append {chosen added : List Attachment} {ids : List Id} (h : Family s chosen)
    (hlength : ids.length = added.length) (hnodup : ids.Nodup)
    (hnew : ∀ id ∈ ids, id ∉ s.children.map (·.id))
    (hchildren : s'.children = s.children ++ ids.zipWith childOf added)
    (hrelationships : s'.relationships = s.relationships ++ ids.zipWith relationshipOf added) :
    Family s' (chosen ++ added) := by
  obtain ⟨old, hold, hlen, hc, hr⟩ := h
  refine ⟨old ++ ids, ?_, ?_, ?_, ?_⟩
  · rw [hc, map_id_zipWith hlen] at hnew
    exact hold.append hnodup fun id hid hid' => hnew id hid' hid
  · rw [List.length_append, List.length_append, hlen, hlength]
  · rw [hchildren, hc, List.zipWith_append hlen]
  · rw [hrelationships, hr, List.zipWith_append hlen]

theorem executions_of_commit {ids : List Id} (hs : step message s (.commit ids) = some s') :
    s.executions ≠ 0 := by
  simp only [step] at hs
  split at hs
  · cases hs
  · split at hs
    · cases hs
    · rename_i hguard
      exact fun hnone => hguard (.inl hnone)

/-- Storing the family once more. -/
theorem Stored.commit {attachments : List Attachment} {ids : List Id}
    (h : Stored attachments k s) (hs : step (some attachments) s (.commit ids) = some s') :
    Stored attachments (k + 1) s' := by
  simp only [step] at hs
  split at hs
  · cases hs
  · rename_i hguard
    cases hs
    obtain ⟨-, hlength, hnodup, hnew⟩ : _ ∧ _ ∧ _ ∧ _ := by simpa only [not_or, not_not] using hguard
    refine ⟨?_, fun _ => Nat.succ_pos k, fun _ => Nat.succ_pos k⟩
    rw [List.replicate_succ', List.flatten_append, List.flatten_singleton]
    exact h.1.append hlength hnodup (fun id hid hold => hnew ⟨id, hid, hold⟩) rfl rfl

/-- No other event stores it. -/
theorem Stored.aside {attachments : List Attachment} {e : Event Id} (h : Stored attachments k s)
    (he : ∀ ids, e ≠ .commit ids) (hs : step message s e = some s') : Stored attachments k s' := by
  obtain ⟨hfamily, hdone, hcompleted⟩ := h
  cases e with
  | commit ids => exact absurd rfl (he ids)
  | load =>
    rw [step] at hs
    split at hs
    · rename_i hparsed
      cases hs
      exact ⟨hfamily.of_rows rfl rfl, hdone, fun _ => hdone hparsed⟩
    · cases hs
      exact ⟨hfamily.of_rows rfl rfl, hdone, hcompleted⟩
  | index =>
    rw [step] at hs
    split at hs
    · rename_i hparsed
      cases hs
      exact ⟨hfamily.of_rows rfl rfl, fun _ => hdone hparsed, hcompleted⟩
    · cases hs
      exact ⟨hfamily, hdone, hcompleted⟩
  | crash =>
    cases hs
    exact ⟨hfamily.of_rows rfl rfl, hdone, hcompleted⟩
  | stageLosesObject =>
    cases hs
    exact ⟨hfamily.of_rows rfl rfl, nofun, hcompleted⟩
  | sweep =>
    rw [step] at hs
    split at hs <;> cases hs <;> exact ⟨hfamily.of_rows rfl rfl, hdone, hcompleted⟩
  | retry =>
    rw [step] at hs
    split at hs <;> cases hs
    · exact ⟨hfamily.of_rows rfl rfl, nofun, hcompleted⟩
    · exact ⟨hfamily, hdone, hcompleted⟩
  | _ =>
    rw [step] at hs
    split at hs <;> cases hs
    exact ⟨hfamily.of_rows rfl rfl, nofun, hcompleted⟩

/-- What the message has stored, however often. -/
theorem stored_step {e : Event Id} (h : ∃ k, Stored (message.getD []) k s)
    (hs : step message s e = some s') : ∃ k, Stored (message.getD []) k s' := by
  obtain ⟨k, hk⟩ := h
  by_cases he : ∃ ids, e = .commit ids
  · obtain ⟨ids, rfl⟩ := he
    cases message with
    | none => cases hs
    | some attachments => exact ⟨k + 1, hk.commit hs⟩
  · exact ⟨k, hk.aside (fun ids heq => he ⟨ids, heq⟩) hs⟩

/-- What is stored once stays so exactly if the event stores no second family. -/
theorem once_step {e : Event Id} (h : ∃ k, Stored (message.getD []) k s)
    (honce : Once (message.getD []) s) (hs : step message s e = some s') :
    Once (message.getD []) s' ↔ Alone s e := by
  obtain ⟨k, hk⟩ := h
  by_cases he : ∃ ids, e = .commit ids
  · obtain ⟨ids, rfl⟩ := he
    cases message with
    | none => cases hs
    | some attachments =>
      rw [Alone, imp_iff_right (executions_of_commit hs), (hk.commit hs).once_iff,
        hk.children_eq_nil, Nat.succ_le_succ_iff, Nat.le_zero]
  · have halone : Alone s e := by
      cases e with
      | commit ids => exact absurd ⟨ids, rfl⟩ he
      | _ => trivial
    refine iff_of_true ?_ halone
    exact (hk.aside (fun ids heq => he ⟨ids, heq⟩) hs).once_iff.mpr (hk.once_iff.mp honce)

/-- **Attachments become children exactly once**, in every state of a run, if and only if no
execution stores the family of an email that has one. -/
theorem attachmentsOnce_iff {events : List (Event Id)} {t : State Id}
    (hrun : run (step message) State.acquired events = some t) :
    Throughout (step message) (Once (message.getD [])) State.acquired events ↔
      Always (step message) Alone State.acquired events := by
  refine throughout_iff_always (fun _ _ _ h hs => stored_step h hs)
    (fun _ _ _ h honce hs => once_step h honce hs) ⟨0, stored_acquired⟩ ?_ hrun
  exact stored_acquired.once_iff.mpr (.inl (Nat.zero_le 1))

/-! ## One execution after the other -/

omit [DecidableEq Id] in
/-- An execution starts when no other is under way, and finds the email parsed if it has
children. -/
def Serial (s : State Id) : Event Id → Prop
  | .load => s.executions = 0 ∧ (s.children ≠ [] → isDone s.processingStatus)
  | _ => True

/-- At most one execution is under way, and then there are no children. -/
theorem serial_step {e : Event Id} (h : s.executions = 0 ∨ s.executions = 1 ∧ s.children = [])
    (hserial : Serial s e) (hs : step message s e = some s') :
    s'.executions = 0 ∨ s'.executions = 1 ∧ s'.children = [] := by
  have hend : s.executions - 1 = 0 := by omega
  cases e with
  | load =>
    rw [step] at hs
    split at hs
    · cases hs
      exact h
    · rename_i hpending
      cases hs
      have hnone : s.children = [] := not_not.mp fun hchildren => hpending (hserial.2 hchildren)
      exact .inr ⟨congrArg (· + 1) hserial.1, hnone⟩
  | commit ids =>
    simp only [step] at hs
    split at hs
    · cases hs
    · split at hs <;> cases hs
      exact .inl hend
  | refuse | loseObject =>
    rw [step] at hs
    split at hs <;> cases hs
    exact .inl hend
  | crash =>
    cases hs
    exact .inl hend
  | stageLosesObject =>
    cases hs
    exact h
  | _ =>
    rw [step] at hs
    split at hs <;> cases hs <;> exact h

/-- **Executions that do not overlap** store no second family. -/
theorem alone_of_serial {events : List (Event Id)}
    (h : Always (step message) Serial State.acquired events) :
    Always (step message) Alone State.acquired events := by
  refine h.imp (fun _ _ _ hinv hserial hs => serial_step hinv hserial hs) ?_ (.inl rfl)
  intro s e hinv _
  cases e with
  | commit ids =>
    intro hexecutions
    exact (hinv.resolve_left hexecutions).2
  | _ => trivial

/-! ## Two deliveries of a job -/

/-- An attachment. -/
def invoice : Attachment := ⟨js "invoice.pdf", js "application/pdf", none, false, js "ab", 3⟩

/-- An execution crashes, the next one stores the family, and a last one finds it stored. -/
def redelivered : List (Event ℕ) := [.load, .crash, .load, .commit [7], .load, .index]

theorem attachmentsOnce_iff_example :
    ∃ t, run (step (some [invoice])) State.acquired redelivered = some t ∧
      t.children = [childOf 7 invoice] ∧
        Throughout (step (some [invoice])) (Once [invoice]) State.acquired redelivered := by
  have hserial : Always (step (some [invoice])) Serial State.acquired redelivered := by
    refine ⟨⟨rfl, nofun⟩, ?_⟩
    rintro _ ⟨⟩
    refine ⟨trivial, ?_⟩
    rintro _ ⟨⟩
    refine ⟨⟨rfl, nofun⟩, ?_⟩
    rintro _ ⟨⟩
    refine ⟨trivial, ?_⟩
    rintro _ ⟨⟩
    refine ⟨⟨rfl, fun _ => rfl⟩, ?_⟩
    rintro _ ⟨⟩
    exact ⟨trivial, fun _ _ => trivial⟩
  have honce := (attachmentsOnce_iff rfl).mpr (alone_of_serial hserial)
  exact ⟨_, rfl, rfl, honce⟩

/-- The job is delivered twice, and both executions find the email not parsed. -/
def deliveredTwice : List (Event ℕ) := [.load, .load, .commit [7], .commit [8]]

theorem deliveredTwice_not_once :
    ∃ t, run (step (some [invoice])) State.acquired deliveredTwice = some t ∧
      ¬ Once [invoice] t := by
  refine ⟨_, rfl, ?_⟩
  rintro ⟨chosen, hfamily, hsub, -⟩
  have hlength : 2 = chosen.length := hfamily.length_children
  have hle : chosen.length ≤ 1 := hsub.length_le
  omega

end AegCloudDfir.Processing
