import AegCloudDfir.Search.Document
import AegCloudDfir.Search.Registered

/-!
# Exact fields

Keyword fields, addresses and Bates numbers are compared as a whole. Three tables have to agree
about them: the registry (`fields.ts`), the index mapping (`mapping.ts`), which says what is
normalized and what is nested, and the compiler (`compile.ts`), which puts what the user writes
into lower case and chooses the path.

The normalizer of the engine is a parameter. Numbers are left out of documents: no exact field has
any.

* `evidenceMapping`, `docScope` — the mapping, and a document as the engine indexes it.
* `Exact` — what an engine does with keyword fields under this mapping.
* `findsStored_iff`, `existsRight_iff`, `wrapped_iff` — when a stored value is found, when an
  existence test is right, and when nested objects are asked as such.
* `findsIndexed_iff` — the three together.
-/

namespace AegCloudDfir.Search

/-! ## The mapping -/

/-- The types of the mapping. -/
inductive MappingType : Type where
  /-- `keyword`, with or without `lowercase_normalizer` -/
  | keyword (normalized : Bool)
  | boolean
  | date
  /-- `text` -/
  | analyzed
  /-- `long`, `integer` and `float` -/
  | number
  deriving DecidableEq

/-- A node of the mapping. -/
inductive MappingNode : Type where
  | leaf (type : MappingType) (fields : List (JsString × MappingType))
  | object (nested : Bool) (properties : List (JsString × MappingNode))

/-- `keyword` -/
def keyword : MappingNode := .leaf (.keyword false) []

/-- `keywordLower` -/
def keywordLower : MappingNode := .leaf (.keyword true) []

/-- `boolField` -/
def boolField : MappingNode := .leaf .boolean []

/-- `dateField` -/
def dateField : MappingNode := .leaf .date []

/-- `englishText` -/
def englishText : MappingNode := .leaf .analyzed []

/-- `textWithKeyword` and `subjectField` -/
def textWithKeyword : MappingNode := .leaf .analyzed [(js "keyword", .keyword true)]

/-- `addressObject` -/
def addressObject : MappingNode :=
  .object false
    [(js "name", .leaf .analyzed []),
      (js "address", .leaf (.keyword true) [(js "text", .analyzed)]),
      (js "domain", keywordLower)]

/-- `mappings.properties` of `EVIDENCE_MAPPING` -/
def evidenceMapping : List (JsString × MappingNode) :=
  [(js "evidenceItemId", keyword), (js "tenantId", keyword), (js "kind", keyword),
    (js "name", textWithKeyword), (js "extension", keywordLower), (js "mimeType", keywordLower),
    (js "size", .leaf .number []), (js "sha256", keywordLower), (js "custodianId", keyword),
    (js "custodianEmail", keywordLower), (js "provider", keyword),
    (js "connectorAccountId", keyword), (js "collectionId", keyword), (js "importId", keyword),
    (js "importOwnerId", keyword), (js "sourcePath", keyword), (js "sourceLabels", keywordLower),
    (js "folder", keyword),
    (js "dates", .object false
      [(js "sent", dateField), (js "received", dateField), (js "created", dateField),
        (js "modified", dateField), (js "acquired", dateField), (js "primary", dateField)]),
    (js "email", .object false
      [(js "subject", textWithKeyword), (js "messageId", keyword), (js "inReplyTo", keyword),
        (js "references", keyword), (js "threadId", keyword), (js "from", addressObject),
        (js "sender", addressObject), (js "to", addressObject), (js "cc", addressObject),
        (js "bcc", addressObject), (js "replyTo", addressObject), (js "bccPresent", boolField)]),
    (js "audit", .object false
      [(js "system", keywordLower), (js "workload", keywordLower), (js "operation", keywordLower),
        (js "recordType", keywordLower), (js "actorId", keywordLower),
        (js "actorEmail", keywordLower), (js "actorIp", keyword), (js "targetId", keyword),
        (js "targetType", keywordLower), (js "resultStatus", keywordLower),
        (js "occurredAt", dateField)]),
    (js "headers", .object true
      [(js "name", keywordLower), (js "value", textWithKeyword)]),
    (js "addresses", .object false [(js "all", keywordLower), (js "domains", keywordLower)]),
    (js "text", .object false
      [(js "body", englishText), (js "bodyHtml", englishText), (js "attachment", englishText),
        (js "file", englishText), (js "ocr", englishText)]),
    (js "ocrPages", .object true
      [(js "page", .leaf .number []), (js "text", englishText),
        (js "confidence", .leaf .number [])]),
    (js "tags", .object true
      [(js "id", keyword), (js "name", keywordLower), (js "privileged", boolField),
        (js "confidential", boolField)]),
    (js "tagNames", keywordLower), (js "caseIds", keyword), (js "privileged", boolField),
    (js "confidential", boolField), (js "processingStatus", keyword), (js "malwareStatus", keyword),
    (js "familyId", keyword), (js "parentId", keyword), (js "isFamilyChild", boolField),
    (js "bates", .object true
      [(js "productionId", keyword), (js "productionName", keyword), (js "begBates", keywordLower),
        (js "endBates", keywordLower)]),
    (js "hasBeenProduced", boolField), (js "indexedAt", dateField),
    (js "docVersion", .leaf .number [])]

/-- A path of the mapping: the nested object it is in or stands for, and its type. -/
structure MappedPath where
  path : JsString
  root : Option JsString
  type : Option MappingType

mutual

/-- The paths of a node. -/
def MappingNode.paths (path : JsString) (root : Option JsString) : MappingNode → List MappedPath
  | .leaf type fields =>
    ⟨path, root, some type⟩ ::
      fields.map fun field => ⟨path ++ js "." ++ field.1, root, some field.2⟩
  | .object nested properties =>
    let root := if nested then some path else root
    ⟨path, root, none⟩ :: propertyPaths (path ++ js ".") root properties

/-- The paths of several properties. -/
def propertyPaths (above : JsString) (root : Option JsString) :
    List (JsString × MappingNode) → List MappedPath
  | [] => []
  | (name, node) :: properties =>
    node.paths (above ++ name) root ++ propertyPaths above root properties

end

/-- All paths of the mapping. -/
def mappedPaths : List MappedPath := propertyPaths [] none evidenceMapping

/-- How a path is mapped. -/
def mappedAt (path : JsString) : Option MappedPath := mappedPaths.find? fun m => m.path = path

/-- The nested object that a path is in or stands for. -/
def nestedRoot (path : JsString) : Option JsString := (mappedAt path).bind (·.root)

/-- Whether a keyword path has the normalizer. -/
def normalizedAt (path : JsString) : Option Bool :=
  match (mappedAt path).bind (·.type) with
  | some (.keyword normalized) => some normalized
  | _ => none

/-! ## Documents in the index -/

/-- The names, the addresses and the domains of a list of addresses. -/
def addressTexts (path : JsString) (addresses : Option (List EmailAddress)) :
    List (JsString × List JsString) :=
  let list := addresses.getD []
  [(path ++ js ".name", list.filterMap (·.name)), (path ++ js ".address", list.map (·.address)),
    (path ++ js ".domain", list.map (·.domain))]

/-- `EvidenceKind`, as documents write it. -/
def kindText : Production.EvidenceKind → JsString
  | .email => js "email"
  | .attachment => js "attachment"
  | .file => js "file"
  | .folderMetadata => js "folder_metadata"
  | .container => js "container"
  | .auditRecord => js "audit_record"
  | .auditBatch => js "audit_batch"
  | .chatMessage => js "chat_message"
  | .chatConversation => js "chat_conversation"

/-- `ProcessingStatus`, as documents write it. -/
def processingText : Production.ProcessingStatus → JsString
  | .pending => js "pending"
  | .parsed => js "parsed"
  | .extracted => js "extracted"
  | .ocrComplete => js "ocr_complete"
  | .previewReady => js "preview_ready"
  | .indexed => js "indexed"
  | .failed => js "failed"
  | .exception => js "exception"

/-- `MalwareStatus`, as documents write it. -/
def malwareText : Production.MalwareStatus → JsString
  | .notScanned => js "not_scanned"
  | .clean => js "clean"
  | .infected => js "infected"
  | .scanFailed => js "scan_failed"
  | .objectMissing => js "object_missing"

namespace EvidenceSearchDoc

variable (doc : EvidenceSearchDoc)

/-- The strings of a document outside its nested objects, by their paths. -/
def texts : List (JsString × List JsString) :=
  let email {α : Type} (f : EvidenceEmailFields → Option α) : Option α := doc.email.bind f
  let audit (f : EvidenceAuditFields → Option JsString) : List JsString :=
    (doc.audit.bind f).toList
  let text (f : Texts → Option JsString) : List JsString := (doc.text.bind f).toList
  [(js "evidenceItemId", [doc.evidenceItemId]), (js "tenantId", [doc.tenantId]),
    (js "kind", [kindText doc.kind]), (js "name", [doc.name]),
    (js "extension", doc.extension.toList), (js "mimeType", doc.mimeType.toList),
    (js "sha256", doc.sha256.toList), (js "custodianId", doc.custodianId.toList),
    (js "custodianEmail", doc.custodianEmail.toList), (js "provider", doc.provider.toList),
    (js "collectionId", doc.collectionId.toList), (js "importId", doc.importId.toList),
    (js "importOwnerId", doc.importOwnerId.toList), (js "sourcePath", doc.sourcePath.toList),
    (js "sourceLabels", doc.sourceLabels.getD []), (js "folder", doc.folder.toList),
    (js "dates.sent", doc.dates.sent.toList), (js "dates.received", doc.dates.received.toList),
    (js "dates.created", doc.dates.created.toList),
    (js "dates.modified", doc.dates.modified.toList),
    (js "dates.acquired", doc.dates.acquired.toList),
    (js "dates.primary", doc.dates.primary.toList),
    (js "email.subject", (email (·.subject)).toList),
    (js "email.messageId", (email (·.messageId)).toList),
    (js "email.inReplyTo", (email (·.inReplyTo)).toList),
    (js "email.references", (email (·.references)).getD []),
    (js "email.threadId", (email (·.threadId)).toList)] ++
  addressTexts (js "email.from") (email (·.from)) ++
  addressTexts (js "email.sender") (email (·.sender)) ++
  addressTexts (js "email.to") (email (·.to)) ++
  addressTexts (js "email.cc") (email (·.cc)) ++
  addressTexts (js "email.bcc") (email (·.bcc)) ++
  addressTexts (js "email.replyTo") (email (·.replyTo)) ++
  [(js "audit.system", (doc.audit.map (·.system)).toList),
    (js "audit.workload", audit (·.workload)), (js "audit.operation", audit (·.operation)),
    (js "audit.recordType", audit (·.recordType)), (js "audit.actorId", audit (·.actorId)),
    (js "audit.actorEmail", audit (·.actorEmail)), (js "audit.actorIp", audit (·.actorIp)),
    (js "audit.targetId", audit (·.targetId)), (js "audit.targetType", audit (·.targetType)),
    (js "audit.resultStatus", audit (·.resultStatus)),
    (js "audit.occurredAt", audit (·.occurredAt)),
    (js "addresses.all", (doc.addresses.map (·.all)).getD []),
    (js "addresses.domains", (doc.addresses.map (·.domains)).getD []),
    (js "text.body", text (·.body)), (js "text.bodyHtml", text (·.bodyHtml)),
    (js "text.attachment", text (·.attachment)), (js "text.file", text (·.file)),
    (js "text.ocr", text (·.ocr)), (js "tagNames", doc.tagNames.getD []),
    (js "caseIds", doc.caseIds.getD []),
    (js "processingStatus", [processingText doc.processingStatus]),
    (js "malwareStatus", [malwareText doc.malwareStatus]), (js "familyId", doc.familyId.toList),
    (js "parentId", doc.parentId.toList), (js "indexedAt", [doc.indexedAt])]

/-- The booleans of a document outside its nested objects. -/
def flags : List (JsString × List Bool) :=
  [(js "email.bccPresent", (doc.email.map (·.bccPresent)).toList),
    (js "privileged", [doc.privileged]), (js "confidential", [doc.confidential]),
    (js "isFamilyChild", [doc.isFamilyChild]), (js "hasBeenProduced", [doc.hasBeenProduced])]

/-- The nested objects of a document, with their strings and booleans. -/
def objects :
    List (JsString × List (List (JsString × List JsString) × List (JsString × List Bool))) :=
  [(js "headers", (doc.headers.getD []).map fun h =>
      ([(js "headers.name", [h.rawName]), (js "headers.value", [h.value])], [])),
    (js "ocrPages", (doc.ocrPages.getD []).map fun p => ([(js "ocrPages.text", [p.text])], [])),
    (js "tags", (doc.tags.getD []).map fun t =>
      ([(js "tags.id", [t.id]), (js "tags.name", [t.name])],
        [(js "tags.privileged", [t.privileged]), (js "tags.confidential", [t.confidential])])),
    (js "bates", (doc.bates.getD []).map fun b =>
      ([(js "bates.productionId", [b.productionId]),
        (js "bates.productionName", [b.productionName]), (js "bates.begBates", [b.begBates]),
        (js "bates.endBates", [b.endBates])], []))]

end EvidenceSearchDoc

variable {Num : Type}

/-- What is listed under a path. -/
def under {α : Type} (table : List (JsString × List α)) (path : JsString) : List α :=
  (table.lookup path).getD []

/-- The values under a path. -/
def valuesUnder (texts : List (JsString × List JsString)) (flags : List (JsString × List Bool))
    (path : JsString) : List (FieldValue Num) :=
  (under texts path).map .text ++ (under flags path).map .bool

/-- A document as the engine indexes it. -/
def docScope (doc : EvidenceSearchDoc) : Scope Num where
  values := valuesUnder doc.texts doc.flags
  nested path := (under doc.objects path).map fun object => valuesUnder object.1 object.2

/-- What an engine does with the keyword fields of the mapping: a term matches the values that the
normalizer of its path makes the same of. -/
structure Exact (engine : Engine Num) (normalize : JsString → JsString) : Prop where
  plain : ∀ path, normalizedAt path = some false → ∀ v (doc : Scope Num),
    engine.term path (.text v) doc ↔ .text v ∈ doc.values path
  normalized : ∀ path, normalizedAt path = some true → ∀ v (doc : Scope Num),
    engine.term path (.text v) doc ↔ ∃ w, .text w ∈ doc.values path ∧ normalize w = normalize v

/-! ## What is asked for -/

/-- A keyword field or an address field of the registry. -/
def ExactField (field : ResolvedField) : Prop :=
  ∃ d, (field.name, d) ∈ fieldDefs ∧ (d.type = .keyword ∨ d.type = .address) ∧
    field = ⟨field.name, some d.esPath, some d.type, none⟩

/-- The Bates numbers of a document. -/
def batesNumbers (doc : EvidenceSearchDoc) : List JsString :=
  (doc.bates.getD []).flatMap fun b => [b.begBates, b.endBates]

/-- The paths at which the values of a field are stored. -/
def storedPaths (field : ResolvedField) : List JsString :=
  if field.type = some .address then
    if field.esPath = some (js "addresses") then [js "addresses.all", js "addresses.domains"]
    else [pathKey field.esPath ++ js ".address", pathKey field.esPath ++ js ".domain"]
  else [pathKey field.esPath]

/-- The values of a field that are stored in a document. -/
def storedValues (field : ResolvedField) (doc : EvidenceSearchDoc) : List JsString :=
  if field.name = js "bates" then batesNumbers doc
  else (storedPaths field).flatMap (under doc.texts)

variable (rt : JsRuntime Num) (normalize : JsString → JsString)

/-- A term with the value `v` finds the value `w`. -/
def SameAt (path w v : JsString) : Prop :=
  if normalizedAt path = some true then normalize w = normalize v else w = v

/-- Some stored value is, as its path compares, the lower case of `v`. -/
def Findable (field : ResolvedField) (doc : EvidenceSearchDoc) (v : JsString) : Prop :=
  if field.name = js "bates" then ∃ w ∈ batesNumbers doc, normalize w = normalize (rt.lower v)
  else if field.type = some .address then
    ∃ w ∈ under doc.texts (addressPath field v),
      SameAt normalize (addressPath field v) w (rt.lower v)
  else
    ∃ w ∈ under doc.texts (pathKey field.esPath),
      SameAt normalize (pathKey field.esPath) w (rt.lower v)

variable (engine : Engine Num)

/-- An exact term and a phrase with a value that is stored match the document. -/
def FindsStored (field : ResolvedField) (doc : EvidenceSearchDoc) : Prop :=
  ∀ v ∈ storedValues field doc,
    (compileNode rt (.term field (.text v) none)).matches engine (docScope doc) ∧
      ∀ proximity, (compileNode rt (.phrase field v proximity)).matches engine (docScope doc)

/-- An existence test matches the documents that have a value. -/
def ExistsRight (field : ResolvedField) (doc : EvidenceSearchDoc) : Prop :=
  (compileNode rt (.exists field)).matches engine (docScope doc) ↔ storedValues field doc ≠ []

/-- A path of a nested object is asked about inside that object. -/
def WrappedAt (inside : Option JsString) (path : JsString) : Prop :=
  ∀ root ∈ nestedRoot path, inside = some root

mutual

/-- Every clause about a path of a nested object is in a nested query for it. -/
def Dsl.Wrapped (inside : Option JsString) : Dsl Num → Prop
  | .undefined | .matchAll => True
  | .term path _ | .terms path _ | .match path _ _ | .matchPhrase path _ _ | .fuzzy path _ _
  | .wildcard path _ | .range path _ => WrappedAt inside path
  | .exists field => ∀ path ∈ field, WrappedAt inside path
  | .multiMatch fields _ _ | .multiMatchPhrase fields _ _ => ∀ path ∈ fields, WrappedAt inside path
  | .nested path query => query.Wrapped (some path)
  | .bool filter must should mustNot _ =>
    AllWrapped inside filter ∧ AllWrapped inside must ∧ AllWrapped inside should ∧
      AllWrapped inside mustNot

/-- The same for several queries. -/
def AllWrapped (inside : Option JsString) : List (Dsl Num) → Prop
  | [] => True
  | query :: queries => query.Wrapped inside ∧ AllWrapped inside queries

end

/-! ## Finding what is stored -/

section Finding

variable {rt normalize engine} {field : ResolvedField} {doc : EvidenceSearchDoc}

theorem text_mem_valuesUnder {texts : List (JsString × List JsString)}
    {flags : List (JsString × List Bool)} {path v : JsString} :
    FieldValue.text v ∈ (valuesUnder texts flags path : List (FieldValue Num)) ↔
      v ∈ under texts path := by
  simp [valuesUnder]

/-- What a term finds at a keyword path. -/
theorem term_iff (h : Exact engine normalize) {path : JsString} (hpath : (normalizedAt path).isSome)
    {v : JsString} {texts : List (JsString × List JsString)} {flags : List (JsString × List Bool)}
    (scope : Scope Num) (hscope : scope.values path = valuesUnder texts flags path) :
    engine.term path (.text v) scope ↔ ∃ w ∈ under texts path, SameAt normalize path w v := by
  obtain ⟨normalized, hnormalized⟩ := Option.isSome_iff_exists.mp hpath
  unfold SameAt
  cases normalized with
  | false =>
    rw [h.plain path hnormalized, hscope, text_mem_valuesUnder, hnormalized]
    simp
  | true =>
    rw [h.normalized path hnormalized, hscope]
    simp only [text_mem_valuesUnder, hnormalized, if_true]

/-- What is read off the registry and the mapping. -/
class TableFacts : Prop where
  normalizedAt_bates : normalizedAt (js "bates.begBates") = some true ∧
    normalizedAt (js "bates.endBates") = some true
  /-- the path of every keyword field but `bates` is a keyword path, without a boolean -/
  keyword_path : ∀ e ∈ fieldDefs, e.2.type = .keyword → e.1 ≠ js "bates" →
    (normalizedAt e.2.esPath).isSome ∧
      e.2.esPath ∉ [js "email.bccPresent", js "privileged", js "confidential",
        js "isFamilyChild", js "hasBeenProduced"]
  /-- both paths of every address field are normalized -/
  address_path : ∀ e ∈ fieldDefs, e.2.type = .address →
    if e.2.esPath = js "addresses" then
      normalizedAt (js "addresses.all") = some true ∧
        normalizedAt (js "addresses.domains") = some true
    else
      normalizedAt (e.2.esPath ++ js ".address") = some true ∧
        normalizedAt (e.2.esPath ++ js ".domain") = some true
  /-- which objects addresses are in -/
  address_mem : ∀ e ∈ fieldDefs, e.2.type = .address → e.2.esPath ≠ js "addresses" →
    e.2.esPath ∈ [js "email.from", js "email.to", js "email.cc", js "email.bcc",
      js "email.sender", js "email.replyTo"] ∧
      e.2.esPath ++ js ".address" ∉ [js "email.bccPresent", js "privileged", js "confidential",
        js "isFamilyChild", js "hasBeenProduced"]
  /-- the one entry that is called `bates` -/
  bates_entry : ∀ e ∈ fieldDefs, e.1 = js "bates" → e.2 = ⟨js "bates", .keyword⟩
  /-- the paths in nested objects begin with the path of the object -/
  nested_paths : ∀ m ∈ mappedPaths, ∀ root ∈ m.root,
    root ∈ [js "headers", js "ocrPages", js "tags", js "bates"] ∧ root <+: m.path
  nestedRoot_fixed : nestedRoot (js "headers.name") = some (js "headers") ∧
    nestedRoot (js "headers.value") = some (js "headers") ∧
    nestedRoot (js "headers.value.keyword") = some (js "headers") ∧
    nestedRoot (js "ocrPages.text") = some (js "ocrPages") ∧
    nestedRoot (js "bates.begBates") = some (js "bates") ∧
    nestedRoot (js "bates.endBates") = some (js "bates") ∧
    nestedRoot (js "bates") = some (js "bates") ∧ nestedRoot (js "text.ocr") = none ∧
    nestedRoot (js "addresses.all") = none ∧ nestedRoot (js "addresses.domains") = none ∧
    nestedRoot (js "undefined") = none
  /-- the other entries have their paths outside -/
  field_begins : ∀ e ∈ fieldDefs, e.1 ≠ js "bates" →
    ∀ root ∈ [js "headers", js "ocrPages", js "tags", js "bates"],
      ∀ last ∈ [[], js ".keyword", js ".address", js ".domain"], ¬ root <+: e.2.esPath ++ last
  allText_begins : ∀ path ∈ allTextFields,
    ∀ root ∈ [js "headers", js "ocrPages", js "tags", js "bates"],
      ¬ root <+: path ∧ ¬ root <+: pathKey (wildcardPath (some path))
  other_begins : ∀ path ∈ [allTextPath, js "undefined"],
    ∀ root ∈ [js "headers", js "ocrPages", js "tags", js "bates"],
      ∀ last ∈ [[], js ".address", js ".domain"], ¬ root <+: path ++ last

instance tableFacts : TableFacts where
  normalizedAt_bates := by
    simp only [normalizedAt, mappedAt, mappedPaths, evidenceMapping, js_eq_asciiUnits]
    decide +kernel
  keyword_path := by
    simp only [fieldDefs, normalizedAt, mappedAt, mappedPaths, evidenceMapping, js_eq_asciiUnits]
    decide +kernel
  address_path := by
    simp only [fieldDefs, normalizedAt, mappedAt, mappedPaths, evidenceMapping, js_eq_asciiUnits]
    decide +kernel
  address_mem := by
    simp only [fieldDefs, js_eq_asciiUnits]
    decide +kernel
  bates_entry := by
    simp only [fieldDefs, js_eq_asciiUnits]
    decide +kernel
  nested_paths := by
    simp only [mappedPaths, evidenceMapping, js_eq_asciiUnits]
    decide +kernel
  nestedRoot_fixed := by
    simp only [nestedRoot, mappedAt, mappedPaths, evidenceMapping, js_eq_asciiUnits]
    decide +kernel
  field_begins := by
    simp only [fieldDefs, js_eq_asciiUnits]
    decide +kernel
  allText_begins := by
    simp only [allTextFields, js_eq_asciiUnits]
    decide +kernel
  other_begins := by
    simp only [allTextPath, js_eq_asciiUnits]
    decide +kernel

theorem nested_bates (doc : EvidenceSearchDoc) :
    (docScope doc : Scope Num).nested (js "bates") = (doc.bates.getD []).map fun b =>
      valuesUnder [(js "bates.productionId", [b.productionId]),
        (js "bates.productionName", [b.productionName]), (js "bates.begBates", [b.begBates]),
        (js "bates.endBates", [b.endBates])] [] := by
  have h : under doc.objects (js "bates") = (doc.bates.getD []).map fun b =>
      ([(js "bates.productionId", [b.productionId]),
        (js "bates.productionName", [b.productionName]), (js "bates.begBates", [b.begBates]),
        (js "bates.endBates", [b.endBates])], []) := rfl
  change (under doc.objects (js "bates")).map _ = _
  rw [h, List.map_map]
  rfl

/-- Wherever an address is looked for, the normalizer applies. -/
theorem normalizedAt_addressPath {d : FieldDef} (hd : (field.name, d) ∈ fieldDefs)
    (htype : d.type = .address) (hpath : field.esPath = some d.esPath) (v : JsString) :
    normalizedAt (addressPath field v) = some true := by
  have h := tableFacts.address_path _ hd htype
  rw [addressPath, hpath]
  by_cases haddresses : d.esPath = js "addresses"
  · rw [if_pos haddresses] at h
    rw [if_pos (congrArg some haddresses)]
    split_ifs
    · exact h.1
    · exact h.2
  · rw [if_neg haddresses] at h
    rw [if_neg fun hsome => haddresses (Option.some.inj hsome)]
    split_ifs
    · exact h.1
    · exact h.2

theorem inBates_iff (h : Exact engine normalize) {v : JsString} :
    InBates (docScope doc) (fun path entry => engine.term path (.text v) entry) ↔
      ∃ w ∈ batesNumbers doc, normalize w = normalize v := by
  have hentry : ∀ b : BatesRecord, ∀ path, normalizedAt path = some true →
      let texts := [(js "bates.productionId", [b.productionId]),
        (js "bates.productionName", [b.productionName]), (js "bates.begBates", [b.begBates]),
        (js "bates.endBates", [b.endBates])]
      (engine.term path (.text v) (.ofNested (valuesUnder texts [])) ↔
        ∃ w ∈ under texts path, normalize w = normalize v) := by
    intro b path hpath texts
    have hsome : (normalizedAt path).isSome := by
      rw [hpath]
      rfl
    rw [@term_iff _ _ _ h path hsome v texts [] (.ofNested (valuesUnder texts [])) rfl]
    simp only [SameAt, hpath, if_true]
  rw [InBates, nested_bates]
  simp only [List.mem_map, exists_exists_and_eq_and,
    hentry _ _ tableFacts.normalizedAt_bates.1, hentry _ _ tableFacts.normalizedAt_bates.2]
  simp only [batesNumbers, List.mem_flatMap]
  refine ⟨?_, ?_⟩
  · rintro ⟨b, hb, ⟨w, hw, hsame⟩ | ⟨w, hw, hsame⟩⟩
    · exact ⟨w, ⟨b, hb, List.mem_cons.mpr (.inl (List.mem_singleton.mp hw))⟩, hsame⟩
    · exact ⟨w, ⟨b, hb, List.mem_cons_of_mem _ hw⟩, hsame⟩
  · rintro ⟨w, ⟨b, hb, hw⟩, hsame⟩
    rcases List.mem_cons.mp hw with rfl | hw
    · exact ⟨b, hb, .inl ⟨_, List.mem_singleton_self _, hsame⟩⟩
    · exact ⟨b, hb, .inr ⟨w, hw, hsame⟩⟩

theorem name_ne_bates {d : FieldDef} (hd : (field.name, d) ∈ fieldDefs)
    (htype : d.type = .address) : field.name ≠ js "bates" := by
  intro hname
  have hentry : d = ⟨js "bates", .keyword⟩ := tableFacts.bates_entry _ hd hname
  rw [hentry] at htype
  cases htype

/-- What a term asks of an exact field. -/
theorem termMeaning_iff (h : Exact engine normalize) (hfield : ExactField field) (v : JsString) :
    TermMeaning rt engine (docScope doc) field (.text v) none ↔
      Findable rt normalize field doc v := by
  obtain ⟨d, hd, htype, heq⟩ := hfield
  have hpath : field.esPath = some d.esPath := by rw [heq]
  have htype' : field.type = some d.type := by rw [heq]
  unfold TermMeaning Findable
  rw [htype']
  rcases htype with hkeyword | haddress
  · rw [hkeyword]
    by_cases hbates : field.name = js "bates"
    · simp only [hbates, if_true]
      exact inBates_iff h
    · simp only [hbates, if_false]
      refine term_iff h ?_ (docScope doc) rfl
      rw [hpath]
      exact (tableFacts.keyword_path _ hd hkeyword hbates).1
  · have hbates := name_ne_bates hd haddress
    rw [haddress]
    simp only [hbates, if_false, if_true]
    refine term_iff h ?_ (docScope doc) rfl
    rw [normalizedAt_addressPath hd haddress hpath]
    rfl

/-- A phrase asks of an exact field what a term asks. -/
theorem phraseMeaning_iff (hfield : ExactField field) {scope : Scope Num} (v : JsString)
    (slop : ℕ) :
    PhraseMeaning rt engine scope field v slop ↔
      TermMeaning rt engine scope field (.text v) none := by
  obtain ⟨d, -, htype, heq⟩ := hfield
  have htype' : field.type = some d.type := by rw [heq]
  unfold PhraseMeaning TermMeaning
  rw [htype']
  rcases htype with hkeyword | haddress
  · rw [hkeyword]
    rfl
  · rw [haddress]
    rfl

/-- **When the values of a field are found.** -/
theorem findsStored_iff (h : Exact engine normalize) (hfield : ExactField field) :
    FindsStored rt engine field doc ↔
      ∀ v ∈ storedValues field doc, Findable rt normalize field doc v := by
  refine forall₂_congr fun v _ => ?_
  rw [← termMeaning_iff h hfield, matches_compileNode]
  refine ⟨?_, ?_⟩
  · intro hv
    exact hv.1
  · intro hv
    refine ⟨hv, fun proximity => ?_⟩
    rw [matches_compileNode]
    exact (phraseMeaning_iff hfield v _).mpr hv

end Finding

/-! ## Existence tests -/

section Existing

variable {rt engine} {field : ResolvedField} {now : ℤ} {input : SearchDocInput}

theorem under_eq_nil {α : Type} {table : List (JsString × List α)} {path : JsString}
    (h : path ∉ table.map Prod.fst) : under table path = [] := by
  have hnone : table.lookup path = none := by
    rw [List.lookup_eq_none_iff]
    intro entry hentry
    rw [bne_iff_ne]
    rintro rfl
    exact h (List.mem_map_of_mem hentry)
  rw [under, hnone]
  rfl

theorem valuesUnder_ne_nil {texts : List (JsString × List JsString)}
    {flags : List (JsString × List Bool)} {path : JsString} (h : path ∉ flags.map Prod.fst) :
    (valuesUnder texts flags path : List (FieldValue Num)) ≠ [] ↔ under texts path ≠ [] := by
  rw [valuesUnder, under_eq_nil h]
  simp

/-- The paths of the strings of a document outside its nested objects. -/
def textPaths : List JsString :=
  [js "evidenceItemId", js "tenantId", js "kind", js "name", js "extension", js "mimeType",
    js "sha256", js "custodianId", js "custodianEmail", js "provider", js "collectionId",
    js "importId", js "importOwnerId", js "sourcePath", js "sourceLabels", js "folder",
    js "dates.sent", js "dates.received", js "dates.created", js "dates.modified",
    js "dates.acquired", js "dates.primary", js "email.subject", js "email.messageId",
    js "email.inReplyTo", js "email.references", js "email.threadId"] ++
  ([js "email.from", js "email.sender", js "email.to", js "email.cc", js "email.bcc",
    js "email.replyTo"].flatMap fun path => [path ++ js ".name", path ++ js ".address",
      path ++ js ".domain"]) ++
  [js "audit.system", js "audit.workload", js "audit.operation", js "audit.recordType",
    js "audit.actorId", js "audit.actorEmail", js "audit.actorIp", js "audit.targetId",
    js "audit.targetType", js "audit.resultStatus", js "audit.occurredAt", js "addresses.all",
    js "addresses.domains", js "text.body", js "text.bodyHtml", js "text.attachment",
    js "text.file", js "text.ocr", js "tagNames", js "caseIds", js "processingStatus",
    js "malwareStatus", js "familyId", js "parentId", js "indexedAt"]

theorem map_fst_addressTexts (path : JsString) (addresses : Option (List EmailAddress)) :
    (addressTexts path addresses).map Prod.fst =
      [path ++ js ".name", path ++ js ".address", path ++ js ".domain"] := rfl

theorem map_fst_texts (doc : EvidenceSearchDoc) : doc.texts.map Prod.fst = textPaths := by
  simp only [EvidenceSearchDoc.texts, textPaths, map_fst_addressTexts, List.map_append,
    List.map_cons, List.map_nil, List.flatMap_cons, List.flatMap_nil, List.append_assoc,
    List.cons_append, List.nil_append]

/-- The addresses of a document stand beside their domains. -/
theorem getElem?_texts (doc : EvidenceSearchDoc) :
    [(28, 29), (31, 32), (34, 35), (37, 38), (40, 41), (43, 44), (56, 57)].map
        (fun i => (doc.texts[i.1]?.map Prod.snd, doc.texts[i.2]?.map Prod.snd)) =
      ([EvidenceEmailFields.from, (·.sender), (·.to), (·.cc), (·.bcc), (·.replyTo)].map fun f =>
        (some (((doc.email.bind f).getD []).map (·.address)),
          some (((doc.email.bind f).getD []).map (·.domain)))) ++
      [(some ((doc.addresses.map (·.all)).getD []),
        some ((doc.addresses.map (·.domains)).getD []))] := by
  simp only [EvidenceSearchDoc.texts, addressTexts, List.cons_append, List.nil_append,
    List.map_cons, List.map_nil, List.getElem?_cons_succ, List.getElem?_cons_zero, Option.map_some]

/-- What is listed under a path stands where the path stands among the paths. -/
theorem under_eq_getElem {α : Type} {table : List (JsString × List α)} {paths : List JsString}
    (hpaths : table.map Prod.fst = paths) {path : JsString} {i : ℕ} (hi : paths.idxOf path = i) :
    under table path = (table[i]?.map Prod.snd).getD [] := by
  subst hpaths hi
  induction table with
  | nil => rfl
  | cons entry table ih =>
    by_cases hentry : entry.1 = path
    · rw [under, List.lookup_cons, beq_iff_eq.mpr hentry.symm]
      simp [hentry]
    · rw [under, List.lookup_cons, beq_false_of_ne (Ne.symm hentry)]
      simpa [List.idxOf_cons, beq_false_of_ne hentry, under] using ih

theorem idxOf_textPaths :
    [js "email.from", js "email.to", js "email.cc", js "email.bcc", js "email.sender",
      js "email.replyTo"].map (fun path => (textPaths.idxOf (path ++ js ".address"),
        textPaths.idxOf (path ++ js ".domain"))) =
      [(28, 29), (34, 35), (37, 38), (40, 41), (31, 32), (43, 44)] ∧
    textPaths.idxOf (js "addresses.all") = 56 ∧ textPaths.idxOf (js "addresses.domains") = 57 ∧
    js "bates" ∉ textPaths := by
  simp only [textPaths, js_eq_asciiUnits]
  decide +kernel

/-- The addresses and the domains of a list are listed together. -/
theorem under_addresses (doc : EvidenceSearchDoc) : ∀ path ∈ [js "email.from", js "email.to",
      js "email.cc", js "email.bcc", js "email.sender", js "email.replyTo"],
    ∃ addresses : List EmailAddress,
      under doc.texts (path ++ js ".address") = addresses.map (·.address) ∧
        under doc.texts (path ++ js ".domain") = addresses.map (·.domain) := by
  obtain ⟨hplaces, -⟩ := idxOf_textPaths
  have hvalues := getElem?_texts doc
  simp only [List.map_cons, List.map_nil, List.cons_append, List.cons.injEq, Prod.mk.injEq,
    and_true] at hplaces hvalues
  obtain ⟨⟨h₁, h₂⟩, ⟨h₃, h₄⟩, ⟨h₅, h₆⟩, ⟨h₇, h₈⟩, ⟨h₉, h₁₀⟩, h₁₁, h₁₂⟩ := hplaces
  obtain ⟨⟨v₁, v₂⟩, ⟨v₉, v₁₀⟩, ⟨v₃, v₄⟩, ⟨v₅, v₆⟩, ⟨v₇, v₈⟩, ⟨v₁₁, v₁₂⟩, -⟩ := hvalues
  simp only [List.forall_mem_cons, List.not_mem_nil, false_imp_iff, implies_true, and_true]
  have at_ {path : JsString} {i : ℕ} {values : List JsString} (hi : textPaths.idxOf path = i)
      (hvalues : doc.texts[i]?.map Prod.snd = some values) : under doc.texts path = values := by
    rw [under_eq_getElem (map_fst_texts doc) hi, hvalues, Option.getD_some]
  exact ⟨⟨_, at_ h₁ v₁, at_ h₂ v₂⟩, ⟨_, at_ h₃ v₃, at_ h₄ v₄⟩, ⟨_, at_ h₅ v₅, at_ h₆ v₆⟩,
    ⟨_, at_ h₇ v₇, at_ h₈ v₈⟩, ⟨_, at_ h₉ v₉, at_ h₁₀ v₁₀⟩, ⟨_, at_ h₁₁ v₁₁, at_ h₁₂ v₁₂⟩⟩

theorem all_ne_nil {participants : List ParticipantInput} {addresses : EvidenceAddresses}
    (h : evidenceAddresses participants = some addresses) : addresses.all ≠ [] := by
  unfold evidenceAddresses at h
  simp only at h
  split_ifs at h with hempty
  cases h
  obtain ⟨a, ha⟩ := List.exists_mem_of_ne_nil _ fun hnil => hempty (List.isEmpty_iff.mpr hnil)
  exact List.ne_nil_of_mem (mem_distinct.mpr ha)

/-- There are domains only where there are addresses. -/
theorem domains_eq_nil (h : under (buildSearchDoc now input).texts (js "addresses.all") = []) :
    under (buildSearchDoc now input).texts (js "addresses.domains") = [] := by
  have hvalues := getElem?_texts (buildSearchDoc now input)
  simp only [List.map_cons, List.map_nil, List.cons_append, List.nil_append, List.cons.injEq,
    Prod.mk.injEq, and_true] at hvalues
  obtain ⟨-, -, -, -, -, -, hallAt, hdomainsAt⟩ := hvalues
  have hall : under (buildSearchDoc now input).texts (js "addresses.all") =
      ((evidenceAddresses input.participants).map (·.all)).getD [] := by
    rw [under_eq_getElem (map_fst_texts _) idxOf_textPaths.2.1, hallAt, Option.getD_some]
    rfl
  have hdomains : under (buildSearchDoc now input).texts (js "addresses.domains") =
      ((evidenceAddresses input.participants).map (·.domains)).getD [] := by
    rw [under_eq_getElem (map_fst_texts _) idxOf_textPaths.2.2.1, hdomainsAt, Option.getD_some]
    rfl
  rw [hall] at h
  rw [hdomains]
  rcases haddresses : evidenceAddresses input.participants with _ | addresses
  · rfl
  · rw [haddresses] at h
    exact absurd h (all_ne_nil haddresses)

/-- The paths of the boolean fields. -/
theorem flags_paths (doc : EvidenceSearchDoc) : doc.flags.map Prod.fst =
    [js "email.bccPresent", js "privileged", js "confidential", js "isFamilyChild",
      js "hasBeenProduced"] := rfl

/-- Nothing is at the path of the Bates numbers itself. -/
theorem values_bates (doc : EvidenceSearchDoc) :
    (docScope doc : Scope Num).values (js "bates") = [] := by
  have htexts := idxOf_textPaths.2.2.2
  rw [← map_fst_texts doc] at htexts
  have hflags : js "bates" ∉ doc.flags.map Prod.fst := by
    rw [flags_paths]
    decide
  change valuesUnder doc.texts doc.flags (js "bates") = []
  rw [valuesUnder, under_eq_nil htexts, under_eq_nil hflags]
  rfl

/-- What an existence test asks, when there are domains only where there are addresses. -/
theorem existsMeaning_iff {doc : EvidenceSearchDoc} (hfield : ExactField field)
    (hdomains : under doc.texts (js "addresses.all") = [] →
      under doc.texts (js "addresses.domains") = []) :
    ExistsMeaning engine (docScope doc) field ↔
      field.name ≠ js "bates" ∧ storedValues field doc ≠ [] := by
  obtain ⟨d, hd, htype, heq⟩ := hfield
  have hpath : field.esPath = some d.esPath := by rw [heq]
  have htype' : field.type = some d.type := by rw [heq]
  rw [ExistsMeaning, storedValues, storedPaths, htype', hpath]
  rcases htype with hkeyword | haddress
  · rw [hkeyword]
    by_cases hbates : field.name = js "bates"
    · have hesPath : d.esPath = js "bates" := congrArg _ (tableFacts.bates_entry _ hd hbates)
      have hnone : (docScope doc : Scope Num).values (js "bates") = [] := values_bates doc
      simp [hesPath, hbates, hnone]
    · have hflag := (tableFacts.keyword_path _ hd hkeyword hbates).2
      rw [← flags_paths doc] at hflag
      have hvalues : (docScope doc : Scope Num).values d.esPath ≠ [] ↔
          under doc.texts d.esPath ≠ [] := valuesUnder_ne_nil hflag
      simpa [hbates, pathKey] using hvalues
  · have hbates := name_ne_bates hd haddress
    rw [haddress]
    by_cases haddresses : d.esPath = js "addresses"
    · have hvalues : (docScope doc : Scope Num).values (js "addresses.all") ≠ [] ↔
          under doc.texts (js "addresses.all") ≠ [] :=
        valuesUnder_ne_nil (by rw [flags_paths]; decide)
      have hlisted : under doc.texts (js "addresses.all") ≠ [] ↔
          (under doc.texts (js "addresses.all") = [] →
            under doc.texts (js "addresses.domains") ≠ []) :=
        ⟨fun hne hnil => absurd hnil hne, fun himp hnil => himp hnil (hdomains hnil)⟩
      simpa [hbates, haddresses] using hvalues.trans hlisted
    · obtain ⟨hmem, hflag⟩ := tableFacts.address_mem _ hd haddress haddresses
      rw [← flags_paths doc] at hflag
      have hvalues : (docScope doc : Scope Num).values (d.esPath ++ js ".address") ≠ [] ↔
          under doc.texts (d.esPath ++ js ".address") ≠ [] := valuesUnder_ne_nil hflag
      obtain ⟨addresses, haddress, hdomain⟩ := under_addresses doc _ hmem
      simp only at haddress hdomain
      rw [haddress] at hvalues
      simpa [hbates, haddresses, pathKey, haddress, hdomain] using hvalues

/-- **When an existence test is right.** Nothing is at the path of the Bates numbers itself. -/
theorem existsRight_iff (hfield : ExactField field) :
    ExistsRight rt engine field (buildSearchDoc now input) ↔
      (field.name = js "bates" → storedValues field (buildSearchDoc now input) = []) := by
  rw [ExistsRight, matches_compileNode, ValidatedNode.Meaning,
    existsMeaning_iff hfield domains_eq_nil]
  tauto

end Existing

/-! ## Nested objects -/

section Nested

variable {rt} {field : ResolvedField} {root : Option JsString}

theorem wrappedAt_of_none {path : JsString} (h : nestedRoot path = none) : WrappedAt root path := by
  rw [WrappedAt, h]
  exact fun _ hroot => absurd hroot (by simp)

theorem wrappedAt_of_some {path object : JsString} (h : nestedRoot path = some object) :
    WrappedAt (some object) path := by
  rw [WrappedAt, h]
  exact fun _ hroot => hroot

/-- A path that begins with the path of no nested object is in none. -/
theorem nestedRoot_eq_none {path : JsString}
    (h : ∀ root ∈ [js "headers", js "ocrPages", js "tags", js "bates"], ¬ root <+: path) :
    nestedRoot path = none := by
  rw [nestedRoot, Option.bind_eq_none_iff]
  intro m hm
  rcases hroot : m.root with _ | root
  · rfl
  · obtain ⟨hlisted, hprefix⟩ :=
      tableFacts.nested_paths m (List.mem_of_find?_eq_some hm) root hroot
    have hpath : m.path = path := by simpa using List.find?_some (id hm : mappedPaths.find? _ = _)
    rw [hpath] at hprefix
    exact absurd hprefix (h root hlisted)

/-- No entry but `bates` has its path in a nested object. -/
theorem nestedRoot_field (e : JsString × FieldDef) (he : e ∈ fieldDefs)
    (hbates : e.1 ≠ js "bates") :
    nestedRoot e.2.esPath = none ∧ nestedRoot (e.2.esPath ++ js ".keyword") = none ∧
      nestedRoot (e.2.esPath ++ js ".address") = none ∧
        nestedRoot (e.2.esPath ++ js ".domain") = none := by
  have hnone : ∀ last ∈ [[], js ".keyword", js ".address", js ".domain"],
      nestedRoot (e.2.esPath ++ last) = none := fun last hlast =>
    nestedRoot_eq_none fun root hroot => tableFacts.field_begins e he hbates root hroot last hlast
  refine ⟨?_, hnone _ (by simp), hnone _ (by simp), hnone _ (by simp)⟩
  simpa using hnone [] (by simp)

theorem nestedRoot_allText (path : JsString) (hpath : path ∈ allTextFields) :
    nestedRoot path = none ∧ nestedRoot (pathKey (wildcardPath (some path))) = none :=
  ⟨nestedRoot_eq_none fun root hroot => (tableFacts.allText_begins path hpath root hroot).1,
    nestedRoot_eq_none fun root hroot => (tableFacts.allText_begins path hpath root hroot).2⟩

theorem allWrapped_iff {queries : List (Dsl Num)} :
    AllWrapped root queries ↔ ∀ query ∈ queries, query.Wrapped root := by
  induction queries with
  | nil => simp [AllWrapped]
  | cons query queries ih => rw [AllWrapped, ih, List.forall_mem_cons]

theorem wrapped_headerQuery {query : Dsl Num} (h : query.Wrapped (some (js "headers"))) :
    (headerQuery field query).Wrapped root := by
  refine ⟨trivial, ⟨?_, h, trivial⟩, trivial, trivial⟩
  exact wrappedAt_of_some tableFacts.nestedRoot_fixed.1

theorem wrapped_ocrQuery {q : JsString → Dsl Num} (houter : (q (js "text.ocr")).Wrapped root)
    (hinner : (q (js "ocrPages.text")).Wrapped (some (js "ocrPages"))) :
    (ocrQuery q).Wrapped root :=
  ⟨trivial, trivial, ⟨houter, hinner, trivial⟩, trivial⟩

theorem wrapped_batesEither {q : JsString → Dsl Num}
    (h : ∀ path, nestedRoot path = some (js "bates") → (q path).Wrapped (some (js "bates"))) :
    (batesEither q).Wrapped root :=
  ⟨trivial, trivial,
    ⟨h _ tableFacts.nestedRoot_fixed.2.2.2.2.1, h _ tableFacts.nestedRoot_fixed.2.2.2.2.2.1,
      trivial⟩, trivial⟩

/-- A field that a query can have: one of the registry, a header, the default or an inherited
name. -/
inductive Resolved : ResolvedField → Prop where
  | entry {name : JsString} {d : FieldDef} (h : (name, d) ∈ fieldDefs) :
    Resolved ⟨name, some d.esPath, some d.type, none⟩
  | header (name header : JsString) :
    Resolved ⟨headerPrefix ++ name, some (js "headers"), some .header, some header⟩
  | default : Resolved defaultTextField
  | inherited {name : JsString} (h : name ∈ inheritedNames) : Resolved (inheritedField name)

theorem resolved_of_resolveField {name : Option JsString}
    (h : resolveField rt defaultFieldRegistry name = .ok field) : Resolved field := by
  rcases name with _ | name
  · cases h
    exact .default
  · rw [resolveField] at h
    rcases hresolve : defaultFieldRegistry.resolve rt name with e | f
    · obtain ⟨message, rfl⟩ := FieldRegistry.resolve_error rt hresolve
      simp only [hresolve] at h
      cases h
    · simp only [hresolve] at h
      cases h
      rcases (FieldRegistry.resolve_ok rt hresolve).2 with ⟨hregistered, -⟩ | ⟨hinherited, hmem, -⟩
      · rcases hregistered with ⟨d, hd, heq⟩ | ⟨header, -, heq⟩ | heq
        · rw [heq]
          exact .entry hd
        · rw [heq]
          exact .header header header
        · rw [heq]
          exact .default
      · rw [hinherited]
        exact .inherited hmem

/-- Only Bates numbers are called `bates`. -/
theorem Resolved.bates (h : Resolved field) (hbates : field.name = js "bates") :
    field = ⟨js "bates", some (js "bates"), some .keyword, none⟩ := by
  cases h with
  | @entry name d hd =>
    cases tableFacts.bates_entry _ hd hbates
    cases hbates
    rfl
  | header name header =>
    exact absurd (congrArg (List.isPrefixOf headerPrefix) hbates) (by
      rw [List.isPrefixOf_iff_prefix.mpr (List.prefix_append ..)]
      decide)
  | default => exact absurd hbates (by decide)
  | @inherited name hname =>
    cases hbates
    exact absurd hname (by decide)

/-- The paths that are made of the path of a field are in no nested object. -/
structure Outside (field : ResolvedField) : Prop where
  own : nestedRoot (pathKey field.esPath) = none
  wildcard : nestedRoot (pathKey (wildcardPath field.esPath)) = none
  address : ∀ value, nestedRoot (addressPath field value) = none
  exists_ : nestedRoot (pathKey field.esPath ++ js ".address") = none

/-- Headers and Bates numbers are the only fields in nested objects. -/
theorem Resolved.outside (h : Resolved field) (hbates : field.name ≠ js "bates")
    (hheader : field.type ≠ some .header) : Outside field := by
  obtain ⟨-, -, -, -, -, -, -, -, hall, hdomains, hundefined⟩ := tableFacts.nestedRoot_fixed
  have hroots : ∃ path, pathKey field.esPath = path ∧ nestedRoot path = none ∧
      nestedRoot (pathKey (wildcardPath field.esPath)) = none ∧
      nestedRoot (path ++ js ".address") = none ∧ nestedRoot (path ++ js ".domain") = none := by
    cases h with
    | @entry name d hd =>
      obtain ⟨hown, hkeyword, haddress, hdomain⟩ := nestedRoot_field _ hd hbates
      refine ⟨d.esPath, rfl, hown, ?_, haddress, hdomain⟩
      rw [wildcardPath]
      split_ifs
      · exact hkeyword
      · exact hown
    | header name header => exact absurd rfl hheader
    | default =>
      have hnone : ∀ last ∈ [[], js ".address", js ".domain"],
          nestedRoot (allTextPath ++ last) = none := fun last hlast =>
        nestedRoot_eq_none fun root hroot =>
          tableFacts.other_begins _ (by simp) root hroot last hlast
      have hwildcard : pathKey (wildcardPath (some allTextPath)) = allTextPath := by
        rw [wildcardPath, if_neg (by decide), pathKey, Option.getD_some]
      have hall : nestedRoot allTextPath = none := by simpa using hnone [] (by simp)
      have hkey : nestedRoot (pathKey (wildcardPath (some allTextPath))) = none := by
        rw [hwildcard, hall]
      exact ⟨allTextPath, rfl, hall, hkey, hnone _ (by simp), hnone _ (by simp)⟩
    | inherited hname =>
      have hnone : ∀ last ∈ [[], js ".address", js ".domain"],
          nestedRoot (js "undefined" ++ last) = none := fun last hlast =>
        nestedRoot_eq_none fun root hroot =>
          tableFacts.other_begins _ (by simp) root hroot last hlast
      exact ⟨js "undefined", rfl, hundefined, hundefined, hnone _ (by simp), hnone _ (by simp)⟩
  obtain ⟨path, hpath, hown, hwildcard, haddress, hdomain⟩ := hroots
  refine ⟨by rw [hpath]; exact hown, hwildcard, fun value => ?_, by rw [hpath]; exact haddress⟩
  rw [addressPath, hpath]
  split_ifs
  · exact hall
  · exact hdomains
  · exact haddress
  · exact hdomain

theorem wrapped_compileTerm (h : Resolved field) (value : FieldValue Num) (fuzzy : Option ℕ) :
    (compileTerm rt field value fuzzy).Wrapped root := by
  by_cases hbates : field.name = js "bates"
  · rw [h.bates hbates]
    exact wrapped_batesEither (q := fun path => .term path (.text (rt.lower (value.show rt))))
      fun _ => wrappedAt_of_some
  · unfold compileTerm
    rcases htype : field.type with _ | type
    · trivial
    · cases type with
      | header => exact wrapped_headerQuery (wrappedAt_of_some tableFacts.nestedRoot_fixed.2.1)
      | ocr =>
        refine wrapped_ocrQuery (wrappedAt_of_none ?_) (wrappedAt_of_some ?_)
        · exact tableFacts.nestedRoot_fixed.2.2.2.2.2.2.2.1
        · exact tableFacts.nestedRoot_fixed.2.2.2.1
      | address =>
        have houtside := h.outside hbates (by rw [htype]; decide)
        exact wrappedAt_of_none (houtside.address _)
      | boolean | size | date =>
        have houtside := h.outside hbates (by rw [htype]; decide)
        exact wrappedAt_of_none houtside.own
      | keyword =>
        have houtside := h.outside hbates (by rw [htype]; decide)
        simp only [hbates, if_false]
        cases fuzzy with
        | none | some edits => exact wrappedAt_of_none houtside.own
      | text =>
        have houtside := h.outside hbates (by rw [htype]; decide)
        by_cases hall : field.esPath = some allTextPath
        · simp only [hall, if_true]
          exact fun path hpath => wrappedAt_of_none (nestedRoot_allText path hpath).1
        · simp only [hall, if_false]
          exact wrappedAt_of_none houtside.own

theorem wrapped_compilePhrase (h : Resolved field) (value : JsString) (proximity : Option ℕ) :
    (compilePhrase rt field value proximity).Wrapped root := by
  by_cases hbates : field.name = js "bates"
  · rw [h.bates hbates]
    exact wrapped_batesEither (q := fun path => .term path (.text (rt.lower value)))
      fun _ => wrappedAt_of_some
  · rw [compilePhrase]
    rcases htype : field.type with _ | type
    · have houtside := h.outside hbates (by rw [htype]; decide)
      exact wrappedAt_of_none houtside.own
    · cases type with
      | header => exact wrapped_headerQuery (wrappedAt_of_some tableFacts.nestedRoot_fixed.2.1)
      | ocr =>
        refine wrapped_ocrQuery (wrappedAt_of_none ?_) (wrappedAt_of_some ?_)
        · exact tableFacts.nestedRoot_fixed.2.2.2.2.2.2.2.1
        · exact tableFacts.nestedRoot_fixed.2.2.2.1
      | address =>
        have houtside := h.outside hbates (by rw [htype]; decide)
        exact wrappedAt_of_none (houtside.address _)
      | keyword =>
        have houtside := h.outside hbates (by rw [htype]; decide)
        simp only [hbates, if_false]
        exact wrappedAt_of_none houtside.own
      | text =>
        have houtside := h.outside hbates (by rw [htype]; decide)
        by_cases hall : field.esPath = some allTextPath
        · simp only [hall, if_true]
          exact fun path hpath => wrappedAt_of_none (nestedRoot_allText path hpath).1
        · simp only [hall, if_false]
          exact wrappedAt_of_none houtside.own
      | boolean | size | date =>
        have houtside := h.outside hbates (by rw [htype]; decide)
        exact wrappedAt_of_none houtside.own

theorem wrapped_compileWildcard (h : Resolved field) (value : JsString) :
    (compileWildcard rt field value).Wrapped root := by
  by_cases hbates : field.name = js "bates"
  · rw [h.bates hbates]
    exact wrapped_batesEither (q := fun path => .wildcard path (rt.lower value))
      fun _ => wrappedAt_of_some
  · rw [compileWildcard]
    rcases htype : field.type with _ | type
    · have houtside := h.outside hbates (by rw [htype]; decide)
      exact wrappedAt_of_none houtside.wildcard
    · cases type with
      | header => exact wrapped_headerQuery (wrappedAt_of_some tableFacts.nestedRoot_fixed.2.2.1)
      | ocr => exact wrappedAt_of_none tableFacts.nestedRoot_fixed.2.2.2.2.2.2.2.1
      | address =>
        have houtside := h.outside hbates (by rw [htype]; decide)
        exact wrappedAt_of_none (houtside.address _)
      | keyword =>
        have houtside := h.outside hbates (by rw [htype]; decide)
        simp only [hbates, if_false]
        exact wrappedAt_of_none houtside.own
      | text =>
        have houtside := h.outside hbates (by rw [htype]; decide)
        by_cases hall : field.esPath = some allTextPath
        · simp only [hall, if_true]
          refine ⟨trivial, trivial, allWrapped_iff.mpr ?_, trivial⟩
          rw [List.forall_mem_map]
          exact fun path hpath => wrappedAt_of_none (nestedRoot_allText path hpath).2
        · simp only [hall, if_false]
          exact wrappedAt_of_none houtside.wildcard
      | boolean | size | date =>
        have houtside := h.outside hbates (by rw [htype]; decide)
        exact wrappedAt_of_none houtside.wildcard

/-- An existence test looks into a nested object from outside exactly for Bates numbers. -/
theorem wrapped_compileExists (h : Resolved field) :
    (compileExists field : Dsl Num).Wrapped none ↔ field.name ≠ js "bates" := by
  by_cases hbates : field.name = js "bates"
  · rw [h.bates hbates]
    refine iff_of_false (fun hwrapped => ?_) (by simp)
    cases hwrapped (js "bates") rfl (js "bates") tableFacts.nestedRoot_fixed.2.2.2.2.2.2.1
  · refine iff_of_true ?_ hbates
    rw [compileExists]
    by_cases hheader : field.type = some .header
    · rw [if_pos hheader]
      exact wrappedAt_of_some tableFacts.nestedRoot_fixed.1
    · have houtside := h.outside hbates hheader
      rw [if_neg hheader]
      split_ifs
      · rintro _ ⟨⟩
        exact wrappedAt_of_none tableFacts.nestedRoot_fixed.2.2.2.2.2.2.2.2.1
      · rintro _ ⟨⟩
        exact wrappedAt_of_none houtside.exists_
      · intro path hpath
        have hown := houtside.own
        rw [Option.mem_def.mp hpath] at hown
        exact wrappedAt_of_none hown

theorem mem_validatedLeavesOf {children : List (ValidatedNode Num)} {leaf : ValidatedNode Num} :
    leaf ∈ validatedLeavesOf children ↔ ∃ child ∈ children, leaf ∈ child.leaves := by
  induction children with
  | nil => simp [validatedLeavesOf]
  | cons child children ih => simp [validatedLeavesOf, ih]

/-- A query asks about nested objects as such when its leaves do. -/
theorem wrapped_compileNode (node : ValidatedNode Num) :
    (compileNode rt node).Wrapped none ↔
      ∀ leaf ∈ node.leaves, (compileNode rt leaf).Wrapped none := by
  induction node with
  | bool kind children ih =>
    have hchildren : AllWrapped none (compileNodes rt children) ↔
        ∀ leaf ∈ validatedLeavesOf children, (compileNode rt leaf).Wrapped none := by
      rw [allWrapped_iff, compileNodes_eq, List.forall_mem_map]
      refine ⟨?_, ?_⟩
      · intro h leaf hleaf
        obtain ⟨child, hchild, hleaf⟩ := mem_validatedLeavesOf.mp hleaf
        exact (ih child hchild).mp (h child hchild) leaf hleaf
      · intro h child hchild
        refine (ih child hchild).mpr fun leaf hleaf => h leaf ?_
        exact mem_validatedLeavesOf.mpr ⟨child, hchild, hleaf⟩
    rw [ValidatedNode.leaves, ← hchildren]
    cases kind with
    | and => simp [compileNode, Dsl.must, Dsl.Wrapped, AllWrapped]
    | or => simp [compileNode, Dsl.anyOf, Dsl.Wrapped, AllWrapped]
  | not child ih =>
    rw [ValidatedNode.leaves, ← ih]
    simp [compileNode, Dsl.mustNot, Dsl.Wrapped, AllWrapped]
  | matchAll => simp [compileNode, Dsl.Wrapped, ValidatedNode.leaves]
  | term field value fuzzy | phrase field value proximity | wildcard field value
  | range field bounds | exists_ field => simp [ValidatedNode.leaves]

/-- A leaf of an accepted query. -/
theorem wrapped_leaf {leaf : ValidatedNode Num} (h : Resolved field)
    (hfield : leaf.field? = some field) (hkind : leaf.KindAllowed) :
    (compileNode rt leaf).Wrapped none ↔ (leaf = .exists field → field.name ≠ js "bates") := by
  cases leaf with
  | term f value fuzzy =>
    cases hfield
    exact iff_of_true (wrapped_compileTerm h value fuzzy) (by rintro ⟨⟩)
  | phrase f value proximity =>
    cases hfield
    exact iff_of_true (wrapped_compilePhrase h value proximity) (by rintro ⟨⟩)
  | wildcard f value =>
    cases hfield
    exact iff_of_true (wrapped_compileWildcard h value) (by rintro ⟨⟩)
  | range f bounds =>
    cases hfield
    refine iff_of_true (wrappedAt_of_none (h.outside ?_ ?_).own) (by rintro ⟨⟩)
    · intro hbates
      rw [h.bates hbates] at hkind
      rcases hkind with hkind | hkind <;> cases hkind
    · intro hheader
      rcases hkind with hkind | hkind <;> cases hkind.symm.trans hheader
  | «exists» f =>
    cases hfield
    rw [compileNode, wrapped_compileExists h]
    simp
  | bool kind children => cases hfield
  | not child => cases hfield
  | matchAll => cases hfield

/-- **When nested objects are asked as such.** -/
theorem wrapped_iff {query : QueryNode} {ast : ValidatedAst Num}
    (hast : validateAst rt defaultFieldRegistry defaultCostLimits query = .ok ast) :
    (compileNode rt ast.root).Wrapped none ↔
      ∀ field, .exists field ∈ ast.root.leaves → field.name ≠ js "bates" := by
  have hleaf : ∀ leaf ∈ ast.root.leaves, ∃ field, Resolved field ∧ leaf.field? = some field ∧
      leaf.KindAllowed := by
    intro leaf hleaf
    obtain ⟨-, hleaves⟩ := validateAst_leaves hast
    obtain ⟨node, -, hcheck⟩ := exists_of_forall₂ hleaves hleaf
    obtain ⟨-, field, hresolve, hfield, -, hkind⟩ := checkLeaf_ok hcheck
    exact ⟨field, resolved_of_resolveField hresolve, hfield, hkind⟩
  rw [wrapped_compileNode]
  refine ⟨?_, ?_⟩
  · intro h field hexists
    obtain ⟨f, hresolved, hfield, hkind⟩ := hleaf _ hexists
    cases hfield
    exact (wrapped_leaf hresolved rfl hkind).mp (h _ hexists) rfl
  · intro h leaf hmem
    obtain ⟨field, hresolved, hfield, hkind⟩ := hleaf _ hmem
    refine (wrapped_leaf hresolved hfield hkind).mpr ?_
    rintro rfl
    exact h field hmem

end Nested

/-! ## Exact fields -/

variable {rt normalize engine} {field : ResolvedField} {query : QueryNode} {ast : ValidatedAst Num}

/-- **When exact fields find what was indexed**: the lower case of every stored value is, as its
path compares, a stored value; and Bates numbers are not asked about by an existence test. -/
theorem findsIndexed_iff (h : Exact engine normalize) (hfield : ExactField field) (now : ℤ)
    (input : SearchDocInput)
    (hast : validateAst rt defaultFieldRegistry defaultCostLimits query = .ok ast) :
    (FindsStored rt engine field (buildSearchDoc now input) ∧
        ExistsRight rt engine field (buildSearchDoc now input) ∧
          (compileNode rt ast.root).Wrapped none) ↔
      (∀ v ∈ storedValues field (buildSearchDoc now input),
          Findable rt normalize field (buildSearchDoc now input) v) ∧
        (field.name = js "bates" → storedValues field (buildSearchDoc now input) = []) ∧
          ∀ f, .exists f ∈ ast.root.leaves → f.name ≠ js "bates" := by
  rw [findsStored_iff h hfield, existsRight_iff hfield, wrapped_iff hast]

/-! ## Paths of files -/

/-- `w` is found where `v` is asked for, by an index that puts ASCII letters into lower case. -/
def sameLower : FieldValue ℤ → FieldValue ℤ → Bool
  | .text w, .text v => asciiLower w = asciiLower v
  | w, v => w = v

/-- An index that puts ASCII letters into lower case and knows no analyzers. -/
def lowerEngine : Engine ℤ where
  term path value doc :=
    if normalizedAt path = some true then (doc.values path).any (sameLower · value)
    else decide (value ∈ doc.values path)
  fullText path query _ doc := decide (.text query ∈ doc.values path)
  phrase path query _ doc := decide (.text query ∈ doc.values path)
  multiText paths query _ doc := paths.any fun path => decide (.text query ∈ doc.values path)
  multiPhrase paths query _ doc := paths.any fun path => decide (.text query ∈ doc.values path)
  fuzzy path value _ doc := decide (.text value ∈ doc.values path)
  wildcard path value doc := decide (.text value ∈ doc.values path)
  range _ _ _ := false
  term_exact path hpath value doc := by
    have hplain : ∀ path ∈ exactPaths, normalizedAt path ≠ some true := by decide +kernel
    rw [if_neg (hplain path hpath), decide_eq_true_iff]

theorem lowerEngine_term (path : JsString) (value : FieldValue ℤ) (doc : Scope ℤ) :
    lowerEngine.term path value doc =
      if normalizedAt path = some true then (doc.values path).any (sameLower · value)
      else decide (value ∈ doc.values path) := rfl

theorem lowerEngine_exact : Exact lowerEngine asciiLower := by
  refine ⟨fun path hpath v doc => ?_, fun path hpath v doc => ?_⟩
  · rw [lowerEngine_term, if_neg (by rw [hpath]; decide), decide_eq_true_iff]
  · rw [lowerEngine_term, if_pos hpath, List.any_eq_true]
    refine ⟨?_, ?_⟩
    · rintro ⟨w, hw, hsame⟩
      cases w with
      | text w => exact ⟨w, hw, of_decide_eq_true hsame⟩
      | number n | bool b => simp [sameLower] at hsame
    · rintro ⟨w, hw, hsame⟩
      exact ⟨.text w, hw, decide_eq_true hsame⟩

/-- The field `path`. -/
def pathField : ResolvedField := ⟨js "path", some (js "sourcePath"), some .keyword, none⟩

theorem pathField_exact : ExactField pathField :=
  ⟨⟨js "sourcePath", .keyword⟩, by decide, .inl rfl, rfl⟩

/-- A file at a path. -/
def fileAt (sourcePath : JsString) : SearchDocInput where
  evidenceItemId := js "item"
  tenantId := js "tenant"
  kind := .file
  name := js "memo.txt"
  extension := js "txt"
  mimeType := js "text/plain"
  size := 5
  sha256 := []
  custodianId := none
  custodianEmail := none
  provider := none
  collectionId := none
  importId := none
  importOwnerId := none
  sourcePath := sourcePath
  sourceLabels := []
  processingStatus := .parsed
  malwareStatus := .clean
  primaryDate := none
  acquiredAt := 0
  sourceCreatedAt := none
  sourceModifiedAt := none
  email := none
  audit := none
  participants := []
  headers := []
  texts := ⟨none, none, none, none, none⟩
  ocrPages := []
  tags := []
  caseIds := []
  bates := []
  familyId := none
  parentId := none
  isFamilyChild := false

theorem storedValues_fileAt {sourcePath : JsString} (h : sourcePath ≠ []) (now : ℤ) :
    storedValues pathField (buildSearchDoc now (fileAt sourcePath)) = [sourcePath] := by
  have hstored : storedValues pathField (buildSearchDoc now (fileAt sourcePath)) =
      (ifText sourcePath).toList ++ [] := rfl
  rw [hstored, ifText, if_neg h]
  rfl

/-- A query for a path. -/
def pathQuery (sourcePath : JsString) : QueryNode := .term (some (js "path")) sourcePath none

/-- A folder is not found by the query for it that the help shows. -/
theorem help_path_not_exact :
    ¬ ∀ (engine : Engine ℤ) (normalize : JsString → JsString), Exact engine normalize →
      ∀ (field : ResolvedField) (now : ℤ) (input : SearchDocInput) (query : QueryNode)
        (ast : ValidatedAst ℤ), ExactField field →
        validateAst asciiRuntime defaultFieldRegistry defaultCostLimits query = .ok ast →
          FindsStored asciiRuntime engine field (buildSearchDoc now input) ∧
            ExistsRight asciiRuntime engine field (buildSearchDoc now input) ∧
              (compileNode asciiRuntime ast.root).Wrapped none := by
  intro h
  let path := js "/Shared drives/Finance"
  have hfinds := (h lowerEngine asciiLower lowerEngine_exact pathField 0 (fileAt path)
    (pathQuery path) ⟨.term pathField (.text path) none⟩ pathField_exact rfl).1
  have hstored : path ∈ storedValues pathField (buildSearchDoc 0 (fileAt path)) := by
    rw [storedValues_fileAt (by decide)]
    exact List.mem_singleton_self _
  have hmiss : (compileNode asciiRuntime (.term pathField (.text path) none)).matches lowerEngine
      (docScope (buildSearchDoc 0 (fileAt path))) = false := by
    decide +kernel
  exact absurd (hfinds path hstored).1 (by rw [hmiss]; decide)

/-- A path without capitals is found. -/
theorem lower_path_exact :
    FindsStored asciiRuntime lowerEngine pathField (buildSearchDoc 0 (fileAt (js "/memos"))) ∧
      ExistsRight asciiRuntime lowerEngine pathField (buildSearchDoc 0 (fileAt (js "/memos"))) ∧
        (compileNode asciiRuntime (.term pathField (.text (js "/memos")) none)).Wrapped none := by
  have hast : validateAst asciiRuntime defaultFieldRegistry defaultCostLimits
      (pathQuery (js "/memos")) = .ok ⟨.term pathField (.text (js "/memos")) none⟩ := rfl
  refine (findsIndexed_iff lowerEngine_exact pathField_exact 0 (fileAt (js "/memos")) hast).mpr
    ⟨?_, ?_, ?_⟩
  · rw [storedValues_fileAt (by decide), List.forall_mem_singleton]
    exact ⟨js "/memos", List.mem_singleton_self _, rfl⟩
  · intro hname
    exact absurd hname (by decide)
  · intro f hf
    cases List.mem_singleton.mp hf

end AegCloudDfir.Search
