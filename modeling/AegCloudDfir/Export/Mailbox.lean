import AegCloudDfir.Export.Items

/-!
# Exports to a PST

`partitionPstSelection` and `runPstExportKind` of `apps/worker/src/processors/export-run.ts` and
`runPstExport` of `apps/worker/src/processors/pst-export.ts`. A PST holds messages and nothing
else. So the selection is cut in three: the emails, the attachments of these emails, which are
inside them, and the rest, which is named as exceptions. Only after that are the natives of the
emails staged, each verified on the way, and those that fail are left out and named as
exceptions too.

An attachment of an email that fails is then inside nothing, and the cut was made before
(`accountsForEvery_iff`).

The writer of the PST is a program of its own; it is a parameter that either says how many
messages it added or why it did not finish.
-/

namespace AegCloudDfir.Export

open Relation
open Search (isSpace)

/-! ## The cut -/

/-- A row of `exceptions.csv`. -/
structure ExportException where
  evidenceItemId : JsString
  error : JsString
  deriving DecidableEq

/-- `PST_NOT_EMAIL_EXCEPTION` -/
def pstNotEmailException : JsString :=
  js "not an email; a PST is a mailbox file and cannot hold this item"

/-- What `partitionPstSelection` returns. -/
structure PstPartition where
  emailIds : List JsString
  omitted : List ExportException
  inlineCount : ℕ

/-- The item is an attachment of one of the emails. -/
def insidePst (inPst : List JsString) (item : Item) : Bool :=
  item.firstAttachment.any fun rel => rel.parentId ∈ inPst

/-- One round of the loop of `partitionPstSelection`. -/
def partitionItem (inPst : List JsString) (s : PstPartition) (item : Item) : PstPartition :=
  if item.kind = .email then s
  else if insidePst inPst item then { s with inlineCount := s.inlineCount + 1 }
  else { s with omitted := s.omitted ++ [⟨item.id, pstNotEmailException⟩] }

/-- `emailIds` -/
def emailIds (items : List Item) : List JsString :=
  (items.filter fun item => item.kind = .email).map Item.id

/-- `partitionPstSelection` -/
def partitionPstSelection (items : List Item) : PstPartition :=
  items.foldl (partitionItem (emailIds items)) ⟨emailIds items, [], 0⟩

theorem foldl_partitionItem (inPst : List JsString) (s : PstPartition) (items : List Item) :
    items.foldl (partitionItem inPst) s =
      { s with
        omitted := s.omitted ++
          (items.filter fun item => item.kind ≠ .email ∧ ¬ insidePst inPst item).map fun item =>
            ⟨item.id, pstNotEmailException⟩
        inlineCount := s.inlineCount +
          items.countP fun item => item.kind ≠ .email ∧ insidePst inPst item } := by
  induction items generalizing s with
  | nil => simp
  | cons item items ih =>
    rw [List.foldl_cons, ih, partitionItem]
    by_cases hemail : item.kind = .email
    · rw [if_pos hemail, List.filter_cons_of_neg (by simp [hemail]),
        List.countP_cons_of_neg (by simp [hemail])]
    · rw [if_neg hemail]
      by_cases hinside : insidePst inPst item
      · rw [if_pos hinside, List.filter_cons_of_neg (by simp [hinside]),
          List.countP_cons_of_pos (by simp [hemail, hinside])]
        simp only [PstPartition.mk.injEq, true_and]
        omega
      · rw [if_neg hinside, List.filter_cons_of_pos (by simp [hemail, hinside]),
          List.countP_cons_of_neg (by simp [hinside]), List.map_cons, List.append_assoc,
          List.singleton_append]

/-- **The cut.** Left out is what is neither an email nor inside one; counted is what is inside
one. -/
theorem partitionPstSelection_eq (items : List Item) :
    partitionPstSelection items =
      { emailIds := emailIds items
        omitted := (items.filter fun item =>
          item.kind ≠ .email ∧ ¬ insidePst (emailIds items) item).map fun item =>
            ⟨item.id, pstNotEmailException⟩
        inlineCount := items.countP fun item =>
          item.kind ≠ .email ∧ insidePst (emailIds items) item } := by
  rw [partitionPstSelection, foldl_partitionItem, List.nil_append, Nat.zero_add]

/-! ## Staging -/

/-- `PstExportItem` -/
structure PstExportItem where
  evidenceItemId : JsString
  sha256 : JsString
  size : ℕ
  subject : JsString
  folderPath : JsString
  custodianEmail : JsString
  collectionId : JsString
  quarantined : Bool
  objectKey : JsString
  receivedAt : Option JsString
  deriving DecidableEq

/-- What `runPstExportKind` hands on of an email. -/
def pstExportItem (item : Item) : PstExportItem where
  evidenceItemId := item.id
  sha256 := item.sha256
  size := item.size
  subject := (item.emailMetadata.map EmailMetadata.subject).getD item.name
  folderPath := item.sourcePath
  custodianEmail := item.custodianEmail.getD []
  collectionId := item.collectionId.getD []
  quarantined := (item.blob.map Blob.quarantined).getD false
  objectKey := (item.blob.map Blob.objectKey).getD []
  receivedAt :=
    ((item.emailMetadata.bind EmailMetadata.receivedAt).orElse fun _ =>
      item.emailMetadata.bind EmailMetadata.sentAt).orElse fun _ => item.primaryDate

/-- A message of the job file. -/
structure JobMessage where
  path : JsString
  folderPath : JsString
  receivedUtc : Option JsString
  deriving DecidableEq

/-- `staged`, `failures` and `jobMessages` -/
structure Staging where
  staged : List PstExportItem
  failures : List ExportException
  jobMessages : List JobMessage

section Staging

variable {Bytes : Type} (sha256 : Bytes → JsString) (deliveries : JsString → Delivery Bytes)

/-- Why an email is not staged. -/
def stagingError (item : PstExportItem) : Option JsString :=
  if item.objectKey = [] ∨ item.sha256 = [] then some (js "no preserved native bytes")
  else
    match deliveries item.evidenceItemId with
    | .unavailable error => some error
    | .interrupted _ error => some error
    | .complete bytes =>
      if sha256 bytes ≠ item.sha256 then
        some (js "sha256 mismatch: expected " ++ item.sha256 ++ js ", streamed " ++ sha256 bytes)
      else none

/-- One round of the loop that stages the natives. -/
def stageItem (s : Staging) (item : PstExportItem) : Staging :=
  match stagingError sha256 deliveries item with
  | some error => { s with failures := s.failures ++ [⟨item.evidenceItemId, error⟩] }
  | none =>
    { s with
      staged := s.staged ++ [item]
      jobMessages := s.jobMessages ++
        [⟨item.evidenceItemId ++ js ".eml", item.folderPath, item.receivedAt⟩] }

/-- The loop. -/
def stageItems (items : List PstExportItem) : Staging :=
  items.foldl (stageItem sha256 deliveries) ⟨[], [], []⟩

/-- The native of an email is there, and it has the digest that was recorded. -/
def Stageable (item : Item) : Prop :=
  (∃ blob, item.blob = some blob ∧ blob.objectKey ≠ []) ∧ item.sha256 ≠ [] ∧
    ∃ bytes, deliveries item.id = .complete bytes ∧ sha256 bytes = item.sha256

theorem stagingError_eq_none (item : Item) :
    stagingError sha256 deliveries (pstExportItem item) = none ↔
      Stageable sha256 deliveries item := by
  have hkey : (pstExportItem item).objectKey = [] ↔
      ¬ ∃ blob, item.blob = some blob ∧ blob.objectKey ≠ [] := by
    rw [pstExportItem]
    cases item.blob with
    | none => simp
    | some blob => simp
  rw [stagingError, Stageable]
  by_cases hmissing : (pstExportItem item).objectKey = [] ∨ (pstExportItem item).sha256 = []
  · rw [if_pos hmissing]
    refine iff_of_false (by rintro ⟨⟩) ?_
    rintro ⟨hblob, hdigest, -⟩
    rcases hmissing with h | h
    · exact hkey.mp h hblob
    · exact hdigest h
  · rw [if_neg hmissing]
    rw [not_or, hkey, not_not] at hmissing
    refine Iff.trans ?_ ((and_iff_right hmissing.1).trans (and_iff_right hmissing.2)).symm
    rw [show (pstExportItem item).evidenceItemId = item.id from rfl]
    cases deliveries item.id with
    | unavailable error
    | interrupted received error => exact iff_of_false (by rintro ⟨⟩) (by rintro ⟨_, ⟨⟩, -⟩)
    | complete bytes =>
      refine ⟨?_, ?_⟩
      · intro h
        dsimp only at h
        split_ifs at h with hdigest
        exact ⟨bytes, rfl, not_not.mp hdigest⟩
      · rintro ⟨_, ⟨⟩, hdigest⟩
        exact if_neg (not_not.mpr hdigest)

/-- **Staging.** Every email is staged or is a failure. -/
theorem stageItems_eq (items : List PstExportItem) :
    (stageItems sha256 deliveries items).staged =
        items.filter (fun item => (stagingError sha256 deliveries item).isNone) ∧
      (stageItems sha256 deliveries items).failures.map ExportException.evidenceItemId =
        (items.filter fun item => (stagingError sha256 deliveries item).isSome).map
          PstExportItem.evidenceItemId := by
  induction items using List.reverseRecOn with
  | nil => exact ⟨rfl, rfl⟩
  | append_singleton items item ih =>
    rw [stageItems, List.foldl_append, List.foldl_cons, List.foldl_nil, ← stageItems, stageItem,
      List.filter_append, List.filter_append, List.map_append]
    cases h : stagingError sha256 deliveries item with
    | none =>
      rw [List.filter_cons_of_pos (by rw [h]; rfl), List.filter_cons_of_neg (by rw [h]; exact Bool.false_ne_true)]
      refine ⟨?_, ?_⟩
      · rw [ih.1, List.filter_nil]
      · rw [ih.2, List.filter_nil, List.map_nil, List.append_nil]
    | some error =>
      rw [List.filter_cons_of_neg (by rw [h]; exact Bool.false_ne_true), List.filter_cons_of_pos (by rw [h]; rfl)]
      refine ⟨?_, ?_⟩
      · rw [ih.1, List.filter_nil, List.append_nil]
      · rw [List.map_append, ih.2]
        rfl

end Staging

/-! ## The digests -/

/-- `FORMULA_TRIGGERS`: `=`, `+`, `-`, `@`, tab and carriage return -/
def formulaTriggers : List CodeUnit :=
  [unitOf '=', unitOf '+', unitOf '-', unitOf '@', 0x09, 0x0D]

/-- `csvEscape` of `packages/production/src/csv.ts`, with commas between the cells. -/
def csvEscape (value : JsString) : JsString :=
  let v := if value.head?.any fun c => c ∈ formulaTriggers then 0x27 :: value else value
  if 0x22 ∈ v ∨ unitOf ',' ∈ v ∨ 0x0D ∈ v ∨ 0x0A ∈ v ∨ 0x09 ∈ v then
    [0x22] ++ (v.flatMap fun c => if c = 0x22 then [0x22, 0x22] else [c]) ++ [0x22]
  else v

/-- The end of a line of a CSV. -/
def lineEnd : JsString := [0x0D, 0x0A]

/-- `buildNativeDigestCsv` -/
def buildNativeDigestCsv (items : List PstExportItem) : JsString :=
  let header := [js "evidenceItemId", js "sha256", js "sizeBytes", js "subject", js "folderPath",
    js "custodianEmail"]
  let rows := (items.filter fun i => i.sha256 ≠ []).map fun i =>
    [i.evidenceItemId, i.sha256, decimal i.size, i.subject, i.folderPath, i.custodianEmail]
  joinWith lineEnd ((header :: rows).map fun cells => joinWith (js ",") (cells.map csvEscape)) ++
    lineEnd

/-- `s.includes(sub)` -/
def includes (s sub : JsString) : Bool := s.tails.any fun t => sub.isPrefixOf t

/-- `s.trimEnd()` -/
def trimEnd (s : JsString) : JsString := (s.reverse.dropWhile isSpace).reverse

/-- `assertNativeDigestsPresent` -/
def assertNativeDigestsPresent (items : List PstExportItem) (digestCsv : JsString) :
    Except JsString Unit :=
  let withDigest := items.filter fun i => i.sha256 ≠ []
  let lines := (trimEnd digestCsv).splitOn 0x0A
  if withDigest.length = 0 then
    .error (js ("refusing to write a PST export with no native .eml digests: nothing in a PST " ++
      "can be verified without them"))
  else if lines.length ≠ withDigest.length + 1 then
    .error (js "native digest file is incomplete: " ++ decimalInt ((lines.length : ℤ) - 1) ++
      js " row(s) for " ++ decimal withDigest.length ++ js " item(s) with a recorded digest")
  else
    match withDigest.find? fun i => ¬ includes digestCsv i.sha256 with
    | none => .ok ()
    | some i =>
      .error (js "native digest file is missing the digest for item " ++ i.evidenceItemId)

/-! ## A run -/

/-- What is in a finished export: the messages of the PST, the exceptions and the counts. -/
structure PstExport where
  staged : List PstExportItem
  exceptions : List ExportException
  itemCount : ℕ
  inlineCount : ℕ
  failedCount : ℕ
  omittedCount : ℕ

section Run

variable {Bytes : Type} (sha256 : Bytes → JsString) (deliveries : JsString → Delivery Bytes)
  (writer : List JobMessage → Except JsString ℕ)

/-- `runPstExport`, and what `runPstExportKind` makes of its outcome. -/
def runPstExport (items : List PstExportItem) (split : PstPartition) : Except JsString PstExport :=
  let staging := stageItems sha256 deliveries items
  if staging.staged.length = 0 then
    .error (js "every one of the " ++ decimal items.length ++
      js " selected item(s) failed native verification; no PST was written")
  else
    match assertNativeDigestsPresent staging.staged (buildNativeDigestCsv staging.staged) with
    | .error error => .error error
    | .ok _ =>
      match writer staging.jobMessages with
      | .error reason => .error reason
      | .ok messagesAdded =>
        if messagesAdded ≠ staging.staged.length then
          .error (js "PST writer added " ++ decimal messagesAdded ++ js " message(s) but " ++
            decimal staging.staged.length ++
            js " were staged; refusing to ship an export that is quietly short")
        else
          .ok
            { staged := staging.staged
              exceptions := split.omitted ++ staging.failures
              itemCount := staging.staged.length
              inlineCount := split.inlineCount
              failedCount := staging.failures.length
              omittedCount := split.omitted.length }

/-- `runPstExportKind` -/
def runPstExportKind (items : List Item) : Except JsString PstExport :=
  let emails := (items.filter fun item => item.kind = .email).map pstExportItem
  let split := partitionPstSelection items
  if emails.length = 0 then
    .error
      (if split.omitted.length > 0 then
        js "this selection has no email items, so there is nothing to put in a PST (" ++
          decimal split.omitted.length ++ js " non-email item(s) were selected)"
      else js "this selection is empty, so there is nothing to put in a PST")
  else runPstExport sha256 deliveries writer emails split

/-- `processExportRun` for a PST, from the items on that `resolveSelectionIds` finds. -/
def pstExport (tables : Tables) (includeFamilies : Bool) (resolved : List JsString) :
    Except JsString PstExport :=
  runPstExportKind sha256 deliveries writer (selectedItems tables includeFamilies resolved)

variable {sha256 deliveries writer} {items : List Item} {result : PstExport}

/-- What a finished run has done. -/
theorem runPstExportKind_ok (h : runPstExportKind sha256 deliveries writer items = .ok result) :
    result.staged = (stageItems sha256 deliveries
        ((items.filter fun item => item.kind = .email).map pstExportItem)).staged ∧
      result.exceptions = (partitionPstSelection items).omitted ++ (stageItems sha256 deliveries
        ((items.filter fun item => item.kind = .email).map pstExportItem)).failures ∧
      result.inlineCount = (partitionPstSelection items).inlineCount := by
  rw [runPstExportKind] at h
  split_ifs at h with hempty
  rw [runPstExport] at h
  split_ifs at h with hstaged
  split at h
  · cases h
  · split at h
    · cases h
    · split_ifs at h with hadded
      cases h
      exact ⟨rfl, rfl, rfl⟩

theorem insidePst_iff {item : Item} :
    insidePst (emailIds items) item ↔ ∃ rel, item.firstAttachment = some rel ∧
      ∃ email ∈ items, email.kind = .email ∧ email.id = rel.parentId := by
  rw [insidePst]
  cases item.firstAttachment with
  | none => simp
  | some rel => simp [emailIds, and_assoc]

/-- The messages of the PST are the emails that could be staged. -/
theorem staged_iff (h : runPstExportKind sha256 deliveries writer items = .ok result)
    {id : JsString} :
    (∃ message ∈ result.staged, message.evidenceItemId = id) ↔
      ∃ email ∈ items, email.kind = .email ∧ email.id = id ∧
        Stageable sha256 deliveries email := by
  rw [(runPstExportKind_ok h).1, (stageItems_eq sha256 deliveries _).1]
  refine ⟨?_, ?_⟩
  · rintro ⟨message, hmessage, rfl⟩
    obtain ⟨hmem, hstaged⟩ := List.mem_filter.mp hmessage
    obtain ⟨email, hemail, rfl⟩ := List.mem_map.mp hmem
    obtain ⟨hitem, hkind⟩ := List.mem_filter.mp hemail
    exact ⟨email, hitem, of_decide_eq_true hkind, rfl,
      (stagingError_eq_none sha256 deliveries email).mp (Option.isNone_iff_eq_none.mp hstaged)⟩
  · rintro ⟨email, hitem, hkind, rfl, hstageable⟩
    refine ⟨pstExportItem email, List.mem_filter.mpr ⟨?_, ?_⟩, rfl⟩
    · exact List.mem_map_of_mem (List.mem_filter.mpr ⟨hitem, decide_eq_true hkind⟩)
    · exact Option.isNone_iff_eq_none.mpr
        ((stagingError_eq_none sha256 deliveries email).mpr hstageable)

/-- The exceptions are the emails that could not and what is neither an email nor inside
one. -/
theorem exceptions_iff (h : runPstExportKind sha256 deliveries writer items = .ok result)
    {id : JsString} :
    (∃ x ∈ result.exceptions, x.evidenceItemId = id) ↔
      ∃ item ∈ items, item.id = id ∧
        (item.kind = .email ∧ ¬ Stageable sha256 deliveries item ∨
          item.kind ≠ .email ∧ ¬ insidePst (emailIds items) item) := by
  have hfailures := (stageItems_eq sha256 deliveries
    ((items.filter fun item => item.kind = .email).map pstExportItem)).2
  rw [← List.mem_map, (runPstExportKind_ok h).2.1, List.map_append, List.mem_append, hfailures,
    partitionPstSelection_eq]
  refine ⟨?_, ?_⟩
  · rintro (homitted | hfailed)
    · obtain ⟨x, hx, rfl⟩ := List.mem_map.mp homitted
      obtain ⟨item, hitem, rfl⟩ := List.mem_map.mp hx
      obtain ⟨hmem, hout⟩ := List.mem_filter.mp hitem
      exact ⟨item, hmem, rfl, .inr (of_decide_eq_true hout)⟩
    · obtain ⟨message, hmessage, rfl⟩ := List.mem_map.mp hfailed
      obtain ⟨hmem, herror⟩ := List.mem_filter.mp hmessage
      obtain ⟨email, hemail, rfl⟩ := List.mem_map.mp hmem
      obtain ⟨hitem, hkind⟩ := List.mem_filter.mp hemail
      refine ⟨email, hitem, rfl, .inl ⟨of_decide_eq_true hkind, fun hstageable => ?_⟩⟩
      rw [(stagingError_eq_none sha256 deliveries email).mpr hstageable] at herror
      cases herror
  · rintro ⟨item, hitem, rfl, ⟨hkind, hnot⟩ | ⟨hkind, hout⟩⟩
    · right
      refine List.mem_map.mpr ⟨pstExportItem item, List.mem_filter.mpr ⟨?_, ?_⟩, rfl⟩
      · exact List.mem_map_of_mem (List.mem_filter.mpr ⟨hitem, decide_eq_true hkind⟩)
      · rw [← Option.ne_none_iff_isSome]
        exact fun hnone => hnot ((stagingError_eq_none sha256 deliveries item).mp hnone)
    · left
      refine List.mem_map.mpr ⟨_, List.mem_map_of_mem (List.mem_filter.mpr ⟨hitem, ?_⟩), rfl⟩
      exact decide_eq_true ⟨hkind, hout⟩

/-! ## Every item is accounted for -/

/-- An item is an attachment of another. -/
def AttachedTo (tables : Tables) (a b : JsString) : Prop :=
  ∃ item ∈ tables.items, item.id = a ∧
    ∃ rel ∈ item.childRelationships, isAttachmentKind rel.kind ∧ rel.parentId = b

/-- `inlineCount` counts the item, as an attachment of the email. -/
def CountedInside (items : List Item) (item : Item) (emailId : JsString) : Prop :=
  item.kind ≠ .email ∧ emailId ∈ emailIds items ∧
    ∃ rel, item.firstAttachment = some rel ∧ rel.parentId = emailId

/-- What a finished export says about the items that were selected. -/
structure AccountsForEvery (tables : Tables) (items : List Item) (result : PstExport) : Prop where
  /-- each is a message, or an exception, or an attachment of something that is a message -/
  accounted : ∀ item ∈ items,
    (∃ message ∈ result.staged, message.evidenceItemId = item.id) ∨
      (∃ x ∈ result.exceptions, x.evidenceItemId = item.id) ∨
        ∃ message ∈ result.staged, TransGen (AttachedTo tables) item.id message.evidenceItemId
  /-- and none is counted as being inside an email that failed -/
  honest : ∀ item ∈ items, ∀ emailId, CountedInside items item emailId →
    ¬ ∃ x ∈ result.exceptions, x.evidenceItemId = emailId

/-- Every selected email that a selected attachment names as its own can be staged. -/
def HoldersStageable (sha256 : Bytes → JsString) (deliveries : JsString → Delivery Bytes)
    (items : List Item) : Prop :=
  ∀ item ∈ items, item.kind ≠ .email → ∀ email ∈ items, email.kind = .email →
    (∃ rel, item.firstAttachment = some rel ∧ rel.parentId = email.id) →
      Stageable sha256 deliveries email

/-- **A PST export accounts for every item** exactly if every email that one of the attachments
is counted inside is staged. -/
theorem accountsForEvery_iff {tables : Tables} {includeFamilies : Bool}
    {resolved : List JsString}
    (h : pstExport sha256 deliveries writer tables includeFamilies resolved = .ok result) :
    AccountsForEvery tables (selectedItems tables includeFamilies resolved) result ↔
      HoldersStageable sha256 deliveries (selectedItems tables includeFamilies resolved) := by
  refine ⟨?_, ?_⟩
  · rintro ⟨-, honest⟩ item hitem hkind email hemail hemailKind ⟨rel, hrel, hparent⟩
    by_contra hnot
    refine honest item hitem email.id ⟨hkind, ?_, rel, hrel, hparent⟩ ?_
    · exact List.mem_map_of_mem (List.mem_filter.mpr ⟨hemail, decide_eq_true hemailKind⟩)
    · exact (exceptions_iff h).mpr ⟨email, hemail, rfl, .inl ⟨hemailKind, hnot⟩⟩
  · intro hholders
    refine ⟨?_, ?_⟩
    · intro item hitem
      by_cases hkind : item.kind = .email
      · by_cases hstageable : Stageable sha256 deliveries item
        · exact .inl ((staged_iff h).mpr ⟨item, hitem, hkind, rfl, hstageable⟩)
        · exact .inr (.inl ((exceptions_iff h).mpr ⟨item, hitem, rfl, .inl ⟨hkind, hstageable⟩⟩))
      · right
        by_cases hinside : insidePst (emailIds (selectedItems tables includeFamilies resolved)) item
        · right
          obtain ⟨rel, hrel, email, hemail, hemailKind, hparent⟩ := insidePst_iff.mp hinside
          obtain ⟨message, hmessage, hid⟩ := (staged_iff h).mpr ⟨email, hemail, hemailKind, rfl,
            hholders item hitem hkind email hemail hemailKind ⟨rel, hrel, hparent.symm⟩⟩
          refine ⟨message, hmessage, .single ⟨item, (mem_loadItemsInBatches.mp hitem).1, rfl, rel,
            List.mem_of_find?_eq_some hrel, ?_, ?_⟩⟩
          · exact List.find?_some (p := fun rel : Relationship => isAttachmentKind rel.kind) hrel
          · rw [hid, hparent]
        · exact .inl ((exceptions_iff h).mpr ⟨item, hitem, rfl, .inr ⟨hkind, hinside⟩⟩)
    · rintro item hitem _ ⟨hkind, hemails, rel, hrel, rfl⟩ hexception
      obtain ⟨email, hmem, hid⟩ := List.mem_map.mp hemails
      obtain ⟨hemail, hemailKind⟩ := List.mem_filter.mp hmem
      have hemailKind := of_decide_eq_true hemailKind
      obtain ⟨other, hother, hotherId, hcase⟩ := (exceptions_iff h).mp hexception
      obtain rfl := selectedItems_unique hother hemail (hotherId.trans hid.symm)
      rcases hcase with ⟨-, hnot⟩ | ⟨hnotEmail, -⟩
      · exact hnot (hholders item hitem hkind other hother hemailKind ⟨rel, hrel, hid.symm⟩)
      · exact hnotEmail hemailKind

end Run

/-! ## An attachment of an email that cannot be read -/

/-- An email. -/
def firstMail : Item := exampleItem (js "m1") .email (js "a") []

/-- Another email, with an attachment. -/
def secondMail : Item := exampleItem (js "m2") .email (js "b") []

/-- The attachment. -/
def enclosure : Item := exampleItem (js "x1") .attachment (js "c") [⟨js "m2", .attachment⟩]

theorem nodup_twoMails : ([firstMail, secondMail, enclosure].map Item.id).Nodup := by
  decide

/-- Two emails and an attachment of the second. -/
def twoMails : Tables where
  items := [firstMail, secondMail, enclosure]
  primaryKey := nodup_twoMails

/-- Their ids. -/
def twoMailIds : List JsString := [js "m1", js "m2", js "x1"]

theorem selectedItems_twoMails :
    selectedItems twoMails false twoMailIds = [firstMail, secondMail, enclosure] := by
  decide +kernel

/-- The native of the second email arrives changed. -/
def secondChanged (id : JsString) : Delivery JsString :=
  .complete (if id = js "m2" then js "other" else id)

/-- A writer that adds every message. -/
def addsAll (messages : List JobMessage) : Except JsString ℕ := .ok messages.length

theorem accountsForEvery_iff_twoMails :
    ∃ result, pstExport id allArrive addsAll twoMails false twoMailIds = .ok result ∧
      AccountsForEvery twoMails (selectedItems twoMails false twoMailIds) result := by
  have hfinished : (pstExport id allArrive addsAll twoMails false twoMailIds).isOk := by
    decide +kernel
  rcases hresult : pstExport id allArrive addsAll twoMails false twoMailIds with error | result
  · rw [hresult] at hfinished
    cases hfinished
  · refine ⟨result, rfl, (accountsForEvery_iff hresult).mpr ?_⟩
    rw [selectedItems_twoMails]
    intro item _ _ email hemail _ _
    have hblob : ∀ item ∈ [firstMail, secondMail, enclosure],
        (∃ blob, item.blob = some blob ∧ blob.objectKey ≠ []) ∧ item.sha256 ≠ [] ∧
          item.sha256 = item.id := by
      simp only [List.forall_mem_cons]
      exact ⟨⟨⟨_, rfl, by decide⟩, by decide, rfl⟩, ⟨⟨_, rfl, by decide⟩, by decide, rfl⟩,
        ⟨⟨_, rfl, by decide⟩, by decide, rfl⟩, by simp⟩
    obtain ⟨hkey, hdigest, hid⟩ := hblob email hemail
    exact ⟨hkey, hdigest, _, rfl, hid.symm⟩

/-- The attachment is counted as being inside the email that is an exception. -/
theorem secondChanged_not_accountsForEvery :
    ∃ result, pstExport id secondChanged addsAll twoMails false twoMailIds = .ok result ∧
      ¬ AccountsForEvery twoMails (selectedItems twoMails false twoMailIds) result := by
  have hfinished : (pstExport id secondChanged addsAll twoMails false twoMailIds).isOk := by
    decide +kernel
  rcases hresult : pstExport id secondChanged addsAll twoMails false twoMailIds with error | result
  · rw [hresult] at hfinished
    cases hfinished
  · refine ⟨result, rfl, fun h => ?_⟩
    have hexceptions : (∃ x ∈ result.exceptions, x.evidenceItemId = js "m2") ↔ _ :=
      exceptions_iff hresult
    rw [selectedItems_twoMails] at h hexceptions
    refine h.honest enclosure (by simp) (js "m2") ⟨by decide, by decide, _, rfl, rfl⟩ ?_
    refine hexceptions.mpr ⟨secondMail, by simp, rfl, .inl ⟨rfl, ?_⟩⟩
    rintro ⟨-, -, bytes, hdelivery, hdigest⟩
    have hother : secondChanged secondMail.id = .complete (js "other") :=
      congrArg Delivery.complete (if_pos rfl)
    cases hother.symm.trans hdelivery
    exact absurd hdigest (by decide)

end AegCloudDfir.Export
