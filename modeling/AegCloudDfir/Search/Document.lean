import AegCloudDfir.Js.Date
import AegCloudDfir.Production.Tables

/-!
# The document of an item

`buildSearchDoc` of `apps/worker/src/processors/search-index.ts`: what the search index holds of an
item of evidence, made from the rows of the item (`ItemRows`, as `processSearchIndex` reads them in one
transaction) and from the texts in the object store.

A property the source leaves `undefined` is `none`. The rows a query orders are in that order.
-/

namespace AegCloudDfir.Search

open Production (EvidenceKind ProcessingStatus MalwareStatus RelationshipKind isFamilyRelationshipKind)

/-- `value || undefined` -/
def ifText (value : JsString) : Option JsString := if value = [] then none else some value

/-- `list.length > 0 ? list : undefined` -/
def ifAny {α : Type} (list : List α) : Option (List α) := if list.isEmpty then none else some list

theorem getD_ifAny {α : Type} (list : List α) : (ifAny list).getD [] = list := by
  cases list <;> rfl

/-- `MAPPING_VERSION` -/
def docMappingVersion : ℕ := 3

/-- `MAX_HEADERS_INDEXED` -/
def maxHeadersIndexed : ℕ := 200

/-- `MAX_OCR_PAGES_INDEXED` -/
def maxOcrPagesIndexed : ℕ := 500

/-- `MAX_AUDIT_RECORDS_INDEXED` -/
def maxAuditRecordsIndexed : ℕ := 5000

/-- `MAX_TEXT_TOTAL_BYTES` -/
def maxTextTotalBytes : ℕ := 1024 * 1024

/-! ## Audit batches -/

/-- `AuditRecordRow` -/
structure AuditRecordRow where
  system : JsString
  workload : JsString
  operation : JsString
  recordType : JsString
  actorId : JsString
  actorEmail : JsString
  actorIp : JsString
  targetId : JsString
  targetType : JsString
  resultStatus : JsString
  occurredAt : Option ℤ
  deriving DecidableEq

/-- `EvidenceAuditFields` -/
structure EvidenceAuditFields where
  system : JsString
  workload : Option JsString
  operation : Option JsString
  recordType : Option JsString
  actorId : Option JsString
  actorEmail : Option JsString
  actorIp : Option JsString
  targetId : Option JsString
  targetType : Option JsString
  resultStatus : Option JsString
  occurredAt : Option JsString
  deriving DecidableEq

/-- The single non-empty distinct value of a field across records, else `''`. -/
def uniformValue (records : List AuditRecordRow) (pick : AuditRecordRow → JsString) : JsString :=
  match distinct ((records.map pick).filter fun v => v ≠ []) with
  | [v] => v
  | _ => []

/-- A line of the text of `buildAuditBatchIndex`. -/
def auditLine (r : AuditRecordRow) : JsString :=
  joinWith (js " ") <| List.filter (fun v => v ≠ [])
    [(r.occurredAt.map toISOString).getD [], (ifText r.actorEmail).getD r.actorId, r.workload,
      r.operation, r.recordType, r.resultStatus, r.actorIp, r.targetType, r.targetId]

/-- `audit` of `buildAuditBatchIndex` -/
def auditFields (records : List AuditRecordRow) : EvidenceAuditFields where
  system := (records.head?.map (·.system)).getD []
  workload := ifText (uniformValue records (·.workload))
  operation := ifText (uniformValue records (·.operation))
  recordType := ifText (uniformValue records (·.recordType))
  actorId := ifText (uniformValue records (·.actorId))
  actorEmail := ifText (uniformValue records (·.actorEmail))
  actorIp := ifText (uniformValue records (·.actorIp))
  targetId := ifText (uniformValue records (·.targetId))
  targetType := ifText (uniformValue records (·.targetType))
  resultStatus := ifText (uniformValue records (·.resultStatus))
  occurredAt := (sorted (records.filterMap (·.occurredAt))).head?.map toISOString

/-- `text` of `buildAuditBatchIndex` -/
def auditText (records : List AuditRecordRow) : JsString :=
  joinWith (js "\n") (records.map auditLine)

/-! ## Texts -/

/-- `TextKind` -/
inductive TextKind : Type where
  | bodyPlain
  | bodyHtmlToText
  | fileText
  | ocrText
  | mediaMetadata
  deriving DecidableEq

/-- A row of `extracted_texts`. -/
structure ExtractedText where
  kind : TextKind
  objectKey : JsString
  deriving DecidableEq

/-- `text` of a document. -/
structure Texts where
  body : Option JsString
  bodyHtml : Option JsString
  attachment : Option JsString
  file : Option JsString
  ocr : Option JsString
  deriving DecidableEq

/-- `Buffer.byteLength(content, 'utf8')` -/
def byteLength : JsString → ℕ
  | [] => 0
  | c :: d :: s =>
    if 0xD800 ≤ c ∧ c ≤ 0xDBFF ∧ 0xDC00 ≤ d ∧ d ≤ 0xDFFF then 4 + byteLength s
    else (if c ≤ 0x7F then 1 else if c ≤ 0x7FF then 2 else 3) + byteLength (d :: s)
  | [c] => if c ≤ 0x7F then 1 else if c ≤ 0x7FF then 2 else 3

/-- A text is put where texts of its kind go. -/
def Texts.put (texts : Texts) (itemKind : EvidenceKind) (content : JsString) : TextKind → Texts
  | .bodyPlain => { texts with body := some content }
  | .bodyHtmlToText => { texts with bodyHtml := some content }
  | .fileText =>
    if itemKind = .attachment then { texts with attachment := some content }
    else { texts with file := some content }
  | .ocrText => { texts with ocr := some content }
  | .mediaMetadata => texts

/-- The texts that `processSearchIndex` loads. `fetch key limit` is the text under a key, unless
there is none or it is longer than the limit. -/
def loadTexts (fetch : JsString → ℕ → Option JsString) (itemKind : EvidenceKind) :
    ℕ → List ExtractedText → Texts → Texts
  | _, [], texts => texts
  | budget, extracted :: rest, texts =>
    if budget = 0 then texts
    else
      match fetch extracted.objectKey budget with
      | none => loadTexts fetch itemKind budget rest texts
      | some content =>
        loadTexts fetch itemKind (budget - byteLength content) rest
          (texts.put itemKind content extracted.kind)

/-- Some text is neither `undefined` nor empty. -/
def Texts.nonempty (texts : Texts) : Bool :=
  [texts.body, texts.bodyHtml, texts.attachment, texts.file, texts.ocr].any fun v =>
    v ≠ none ∧ v ≠ some []

/-! ## What the document is made from -/

/-- `ParticipantRole` -/
inductive ParticipantRole : Type where
  | «from»
  | sender
  | «to»
  | cc
  | bcc
  | replyTo
  deriving DecidableEq

/-- `ParticipantInput` -/
structure ParticipantInput where
  role : ParticipantRole
  rawName : JsString
  rawAddress : JsString
  normalizedAddress : JsString
  domain : JsString
  deriving DecidableEq

/-- `email` of `SearchDocInput`; a row of `email_metadata`. -/
structure EmailInput where
  subject : JsString
  messageId : JsString
  inReplyTo : JsString
  references : List JsString
  threadId : JsString
  folder : JsString
  bccPresent : Bool
  sentAt : Option ℤ
  receivedAt : Option ℤ
  deriving DecidableEq

/-- A row of `headers`. -/
structure HeaderRow where
  rawName : JsString
  value : JsString
  deriving DecidableEq

/-- A row of `ocr_pages`; a confidence is a finite number. -/
structure OcrPageRow where
  pageNumber : ℕ
  text : JsString
  confidence : ℚ
  deriving DecidableEq

/-- A row of `tags`. -/
structure TagRow where
  id : JsString
  name : JsString
  isPrivileged : Bool
  isConfidential : Bool
  deriving DecidableEq

/-- A row of `production_items` with its production; also a record of `bates`. -/
structure BatesRecord where
  productionId : JsString
  productionName : JsString
  begBates : JsString
  endBates : JsString
  deriving DecidableEq

/-- A row of `evidence_relationships` in which the item is the child. -/
structure ParentRow where
  parentId : JsString
  kind : RelationshipKind
  deriving DecidableEq

/-- An item of evidence with the rows `processSearchIndex` includes. -/
structure ItemRows where
  id : JsString
  kind : EvidenceKind
  name : JsString
  extension : JsString
  mimeType : JsString
  size : ℕ
  sha256 : JsString
  custodianId : Option JsString
  custodianEmail : Option JsString
  provider : Option JsString
  collectionId : Option JsString
  importId : Option JsString
  /-- `forensicImport.createdById` -/
  importOwnerId : Option JsString
  sourcePath : JsString
  sourceLabels : List JsString
  processingStatus : ProcessingStatus
  malwareStatus : MalwareStatus
  primaryDate : Option ℤ
  acquiredAt : ℤ
  sourceCreatedAt : Option ℤ
  sourceModifiedAt : Option ℤ
  emailMetadata : Option EmailInput
  participants : List ParticipantInput
  headers : List HeaderRow
  extractedTexts : List ExtractedText
  ocrPages : List OcrPageRow
  /-- the tags of its assignments -/
  tags : List TagRow
  /-- the case of every row of `case_items` -/
  caseItems : List JsString
  productionItems : List BatesRecord
  childRelationships : List ParentRow
  /-- the kinds of the relationships in which the item is the parent -/
  parentRelationships : List RelationshipKind
  auditRecords : List AuditRecordRow
  deriving DecidableEq

/-- `SearchDocInput` -/
structure SearchDocInput where
  evidenceItemId : JsString
  tenantId : JsString
  kind : EvidenceKind
  name : JsString
  extension : JsString
  mimeType : JsString
  size : ℕ
  sha256 : JsString
  custodianId : Option JsString
  custodianEmail : Option JsString
  provider : Option JsString
  collectionId : Option JsString
  importId : Option JsString
  importOwnerId : Option JsString
  sourcePath : JsString
  sourceLabels : List JsString
  processingStatus : ProcessingStatus
  malwareStatus : MalwareStatus
  primaryDate : Option ℤ
  acquiredAt : ℤ
  sourceCreatedAt : Option ℤ
  sourceModifiedAt : Option ℤ
  email : Option EmailInput
  audit : Option EvidenceAuditFields
  participants : List ParticipantInput
  headers : List HeaderRow
  texts : Texts
  ocrPages : List OcrPageRow
  tags : List TagRow
  caseIds : List JsString
  bates : List BatesRecord
  familyId : Option JsString
  parentId : Option JsString
  isFamilyChild : Bool
  deriving DecidableEq

/-- What `processSearchIndex` hands to `buildSearchDoc`. -/
def searchDocInput (fetch : JsString → ℕ → Option JsString) (tenantId : JsString)
    (item : ItemRows) : SearchDocInput :=
  let isAuditBatch := item.kind = .auditBatch
  let auditRecords := item.auditRecords.take maxAuditRecordsIndexed
  let parentRel := item.childRelationships.find? fun r => isFamilyRelationshipKind r.kind
  let hasChildren := item.parentRelationships.any isFamilyRelationshipKind
  let loaded := loadTexts fetch item.kind maxTextTotalBytes item.extractedTexts
    ⟨none, none, none, none, none⟩
  { evidenceItemId := item.id
    tenantId := tenantId
    kind := item.kind
    name := item.name
    extension := item.extension
    mimeType := item.mimeType
    size := item.size
    sha256 := item.sha256
    custodianId := item.custodianId
    custodianEmail := item.custodianEmail
    provider := item.provider
    collectionId := item.collectionId
    importId := item.importId
    importOwnerId := item.importOwnerId
    sourcePath := item.sourcePath
    sourceLabels := item.sourceLabels
    processingStatus := item.processingStatus
    malwareStatus := item.malwareStatus
    primaryDate := item.primaryDate
    acquiredAt := item.acquiredAt
    sourceCreatedAt := item.sourceCreatedAt
    sourceModifiedAt := item.sourceModifiedAt
    email := item.emailMetadata
    audit := if isAuditBatch then some (auditFields auditRecords) else none
    participants := item.participants
    headers := item.headers.take maxHeadersIndexed
    texts :=
      if isAuditBatch ∧ auditText auditRecords ≠ [] then
        { loaded with file := some (auditText auditRecords) }
      else loaded
    ocrPages := item.ocrPages.take maxOcrPagesIndexed
    tags := item.tags
    caseIds := distinct item.caseItems
    bates := item.productionItems
    familyId :=
      match parentRel with
      | some rel => some rel.parentId
      | none => if hasChildren then some item.id else none
    parentId := parentRel.map (·.parentId)
    isFamilyChild := parentRel.isSome }

/-! ## The document -/

/-- `EmailAddress` -/
structure EmailAddress where
  name : Option JsString
  address : JsString
  domain : JsString
  deriving DecidableEq

/-- `EvidenceDates` -/
structure EvidenceDates where
  sent : Option JsString
  received : Option JsString
  created : Option JsString
  modified : Option JsString
  acquired : Option JsString
  primary : Option JsString
  deriving DecidableEq

/-- `EvidenceEmailFields` -/
structure EvidenceEmailFields where
  subject : Option JsString
  messageId : Option JsString
  inReplyTo : Option JsString
  references : Option (List JsString)
  threadId : Option JsString
  «from» : Option (List EmailAddress)
  sender : Option (List EmailAddress)
  «to» : Option (List EmailAddress)
  cc : Option (List EmailAddress)
  bcc : Option (List EmailAddress)
  replyTo : Option (List EmailAddress)
  bccPresent : Bool
  deriving DecidableEq

/-- `addresses` of a document. -/
structure EvidenceAddresses where
  all : List JsString
  domains : List JsString
  deriving DecidableEq

/-- `EvidenceTag` -/
structure EvidenceTag where
  id : JsString
  name : JsString
  privileged : Bool
  confidential : Bool
  deriving DecidableEq

/-- `EvidenceSearchDoc` -/
structure EvidenceSearchDoc where
  evidenceItemId : JsString
  tenantId : JsString
  kind : EvidenceKind
  name : JsString
  extension : Option JsString
  mimeType : Option JsString
  size : ℕ
  sha256 : Option JsString
  custodianId : Option JsString
  custodianEmail : Option JsString
  provider : Option JsString
  collectionId : Option JsString
  importId : Option JsString
  importOwnerId : Option JsString
  sourcePath : Option JsString
  sourceLabels : Option (List JsString)
  folder : Option JsString
  dates : EvidenceDates
  email : Option EvidenceEmailFields
  audit : Option EvidenceAuditFields
  headers : Option (List HeaderRow)
  addresses : Option EvidenceAddresses
  text : Option Texts
  ocrPages : Option (List OcrPageRow)
  tags : Option (List EvidenceTag)
  tagNames : Option (List JsString)
  caseIds : Option (List JsString)
  privileged : Bool
  confidential : Bool
  processingStatus : ProcessingStatus
  malwareStatus : MalwareStatus
  familyId : Option JsString
  parentId : Option JsString
  isFamilyChild : Bool
  bates : Option (List BatesRecord)
  hasBeenProduced : Bool
  indexedAt : JsString
  docVersion : ℕ
  deriving DecidableEq

/-- `toEmailAddress` -/
def toEmailAddress (p : ParticipantInput) : Option EmailAddress :=
  if p.normalizedAddress = [] then none
  else some ⟨ifText p.rawName, p.normalizedAddress, p.domain⟩

/-- `addressesFor` -/
def addressesFor (participants : List ParticipantInput) (role : ParticipantRole) :
    Option (List EmailAddress) :=
  ifAny ((participants.filter fun p => p.role = role).filterMap toEmailAddress)

/-- A kind the index knows (`KNOWN_KINDS`), or `file`. -/
def docKind : EvidenceKind → EvidenceKind
  | .email => .email
  | .attachment => .attachment
  | .auditRecord => .auditRecord
  | .auditBatch => .auditBatch
  | _ => .file

/-- `email` of the document. -/
def emailFields (participants : List ParticipantInput) (email : EmailInput) :
    EvidenceEmailFields where
  subject := ifText email.subject
  messageId := ifText email.messageId
  inReplyTo := ifText email.inReplyTo
  references := ifAny email.references
  threadId := ifText email.threadId
  «from» := addressesFor participants .from
  sender := addressesFor participants .sender
  «to» := addressesFor participants .to
  cc := addressesFor participants .cc
  bcc := if email.bccPresent then addressesFor participants .bcc else none
  replyTo := addressesFor participants .replyTo
  bccPresent := email.bccPresent

/-- `addresses` of the document. -/
def evidenceAddresses (participants : List ParticipantInput) : Option EvidenceAddresses :=
  let allAddresses := (participants.map (·.normalizedAddress)).filter fun a => a ≠ []
  let allDomains := (participants.map (·.domain)).filter fun d => d ≠ []
  if allAddresses.isEmpty then none else some ⟨distinct allAddresses, distinct allDomains⟩

/-- `buildSearchDoc`, at the time `now` -/
def buildSearchDoc (now : ℤ) (input : SearchDocInput) : EvidenceSearchDoc :=
  let tags := input.tags.map fun t => ⟨t.id, t.name, t.isPrivileged, t.isConfidential⟩
  let bates := input.bates.filter fun b => b.begBates ≠ []
  { evidenceItemId := input.evidenceItemId
    tenantId := input.tenantId
    kind := docKind input.kind
    name := input.name
    extension := ifText input.extension
    mimeType := ifText input.mimeType
    size := input.size
    sha256 := ifText input.sha256
    custodianId := input.custodianId
    custodianEmail := input.custodianEmail
    provider := input.provider
    collectionId := input.collectionId
    importId := input.importId
    importOwnerId := input.importOwnerId
    sourcePath := ifText input.sourcePath
    sourceLabels := ifAny input.sourceLabels
    folder := input.email.bind fun email => ifText email.folder
    dates :=
      { sent := (input.email.bind (·.sentAt)).map toISOString
        received := (input.email.bind (·.receivedAt)).map toISOString
        created := input.sourceCreatedAt.map toISOString
        modified := input.sourceModifiedAt.map toISOString
        acquired := some (toISOString input.acquiredAt)
        primary := some (toISOString (input.primaryDate.getD input.acquiredAt)) }
    email := input.email.map (emailFields input.participants)
    audit := input.audit
    headers := ifAny (input.headers.take maxHeadersIndexed)
    addresses := evidenceAddresses input.participants
    text := if input.texts.nonempty then some input.texts else none
    ocrPages := ifAny (input.ocrPages.take maxOcrPagesIndexed)
    tags := ifAny tags
    tagNames := ifAny (tags.map EvidenceTag.name)
    caseIds := ifAny input.caseIds
    privileged := tags.any EvidenceTag.privileged
    confidential := tags.any EvidenceTag.confidential
    processingStatus := input.processingStatus
    malwareStatus := input.malwareStatus
    familyId := input.familyId
    parentId := input.parentId
    isFamilyChild := input.isFamilyChild
    bates := ifAny bates
    hasBeenProduced := !bates.isEmpty
    indexedAt := toISOString now
    docVersion := docMappingVersion }

/-- The document `processSearchIndex` makes of some rows. -/
def itemDoc (fetch : JsString → ℕ → Option JsString) (tenantId : JsString) (now : ℤ)
    (item : ItemRows) : EvidenceSearchDoc :=
  buildSearchDoc now (searchDocInput fetch tenantId item)

end AegCloudDfir.Search
