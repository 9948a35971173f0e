import AegCloudDfir.Production.Tables

/-!
# The facts of a selection

`loadValidationItems` of `apps/api/src/productions/productions.service.ts`, which fills in
the sheets the validator works on, and the two predicates that decide about natives:
`wouldProduceNative` there and `wantsNative` of `apps/worker/src/processors/production-run.ts`.

Of the links to parents only what touches the selection is loaded, and of several parents
of one item the first that is loaded is its parent. `mem_loadValidationItems` says which
sheets there are; what they say about redactions and links is read off the tables by
`hasFinalRedactions_sheet` and `parentOf_eq_some`.

The predicates about natives agree but for one kind of parameters: where natives are asked
for and the policy names neither extensions nor tags, the API takes every item and the
worker none (`natives_agree_iff`).
-/

namespace AegCloudDfir.Production

variable {Id : Type} [DecidableEq Id]

section Facts

/-- `CONVERTIBLE_EXTENSIONS` -/
def convertibleExtensions : List JsString :=
  [js "pdf", js "doc", js "docx", js "xls", js "xlsx", js "ppt", js "pptx", js "txt", js "rtf",
    js "csv", js "htm", js "html", js "eml", js "msg", js "jpg", js "jpeg", js "png", js "gif",
    js "bmp", js "tif", js "tiff", js "webp", js "odt", js "ods", js "odp", js "md"]

/-- `ARCHIVE_EXTENSIONS` -/
def archiveExtensions : List JsString :=
  [js "zip", js "pst", js "mbox", js "tar", js "gz", js "7z", js "rar"]

/-- `s.includes(part)` -/
def includes (s part : JsString) : Bool := s.tails.any fun rest => startsWith rest part

/-- `malwareMap` -/
def malwareVerdict : MalwareStatus → MalwareVerdict
  | .clean => .clean
  | .notScanned => .unscanned
  | .scanFailed => .suspicious
  | .infected => .infected
  | .objectMissing => .unscanned

/-- `!['pending', 'failed', 'exception'].includes(item.processingStatus)` -/
def isProcessed (status : ProcessingStatus) : Bool :=
  status ∉ [.pending, .failed, .exception]

/-- `parentOf`: of several relationships of a child the first counts. -/
def parentOf (tables : Tables Id) (ids : List Id) : JsMap Id Id :=
  JsMap.ofFirst ((familyRelationships tables ids).map fun rel => (rel.childId, rel.parentId))

/-- `inFamily.has(id)` -/
def inFamily (tables : Tables Id) (ids : List Id) (id : Id) : Bool :=
  (familyRelationships tables ids).any fun rel => rel.parentId = id ∨ rel.childId = id

/-- The loop of `familyRoot`. Every round sees another key of the map. -/
def familyRootFrom (parents : JsMap Id Id) : ℕ → List Id → Id → Id
  | 0, _, current => current
  | n + 1, seen, current =>
    match parents.get? current with
    | some parent =>
      if current ∈ seen then current else familyRootFrom parents n (current :: seen) parent
    | none => current

/-- `familyRoot` -/
def familyRoot (parents : JsMap Id Id) (id : Id) : Id :=
  familyRootFrom parents (parents.length + 1) [] id

variable (toLowerCase : JsString → JsString)

/-- `wouldProduceNative` -/
def wouldProduceNative (tables : Tables Id) (ids : List Id) (parameters : ProductionParameters Id)
    (item : EvidenceItem Id) : Bool :=
  let policy := parameters.nativePolicy
  -- the assignments of the tags of the policy are looked up only if there are such tags
  let policyTagged := if policy.tagIds.length > 0 then
      rowsOf (fun id row => row.evidenceItemId = id ∧ row.tagId ∈ policy.tagIds) ids
        tables.tagAssignments
    else []
  let policyHasFilters := policy.extensions.length > 0 || policy.tagIds.length > 0
  match parameters.output with
  | .nativesOnly => true
  | .pdfOnly => false
  | .loadFile _ includeNatives _ =>
    if !includeNatives then false
    else if !policyHasFilters then true
    else policy.extensions.contains (toLowerCase item.extension) ||
      policyTagged.any fun row => row.evidenceItemId = item.id

/-- `wantsNative` of the worker. -/
def wantsNative (tables : Tables Id) (parameters : ProductionParameters Id)
    (item : EvidenceItem Id) : Bool :=
  let tagIds := (tables.tagAssignments.filter fun row => row.evidenceItemId = item.id).map
    TagAssignment.tagId
  match parameters.output with
  | .nativesOnly => true
  | .pdfOnly => false
  | .loadFile _ includeNatives _ =>
    if includeNatives then
      if parameters.nativePolicy.extensions.contains (toLowerCase item.extension) then true
      else parameters.nativePolicy.tagIds.any fun id => tagIds.contains id
    else false

/-- The sheet of an item. -/
def sheetOf (tables : Tables Id) (ids : List Id) (parameters : ProductionParameters Id)
    (item : EvidenceItem Id) : ProductionValidationItem Id :=
  let ext := toLowerCase item.extension
  let detail := toLowerCase item.processingDetail
  let redactions := rowsOf (fun id (row : Redaction Id) => row.evidenceItemId = id) ids
    tables.redactions
  { evidenceId := item.id
    familyId := if inFamily tables ids item.id then some (familyRoot (parentOf tables ids) item.id)
      else none
    parentId := (parentOf tables ids).get? item.id
    hasFinalRedactions := redactions.any fun row =>
      row.evidenceItemId = item.id ∧ row.stage = .final
    hasPreviewRedactions := redactions.any fun row =>
      row.evidenceItemId = item.id ∧ row.stage ≠ .final
    isPrivileged := (rowsOf (fun id (row : TagAssignment Id) =>
      row.evidenceItemId = id ∧ row.isPrivileged) ids tables.tagAssignments).any fun row =>
        row.evidenceItemId = item.id
    isArchiveContainer := item.kind = .container || archiveExtensions.contains ext
    isDuplicate := (rowsOf (fun id (rel : Relationship Id) =>
      rel.kind = .duplicateOf ∧ rel.childId = id) ids tables.relationships).any fun rel =>
        rel.childId = item.id
    malwareStatus := malwareVerdict item.malwareStatus
    hasNative := item.blobId.isSome
    conversionSupported := convertibleExtensions.contains ext
    processed := isProcessed item.processingStatus
    isEncrypted := ((rowsOf (fun id (row : EmailMetadata Id) =>
      row.evidenceItemId = id ∧ row.isEncrypted) ids tables.emailMetadata).any fun row =>
        row.evidenceItemId = item.id) || includes detail (js "encrypted")
    hasText := (rowsOf (fun id row => row = id) ids tables.extractedTexts).contains item.id
    sizeBytes := item.size
    wouldProduceNative := wouldProduceNative toLowerCase tables ids parameters item
    isCorrupt := includes detail (js "corrupt") }

/-- `loadValidationItems` -/
def loadValidationItems (tables : Tables Id) (ids : List Id)
    (parameters : ProductionParameters Id) : List (ProductionValidationItem Id) :=
  (itemRows tables ids).map (sheetOf toLowerCase tables ids parameters)

/-! ## What the sheets say -/

theorem mem_loadValidationItems {tables : Tables Id} {ids : List Id}
    {parameters : ProductionParameters Id} {sheet : ProductionValidationItem Id} :
    sheet ∈ loadValidationItems toLowerCase tables ids parameters ↔
      ∃ item ∈ tables.items, item.id ∈ ids ∧
        sheetOf toLowerCase tables ids parameters item = sheet := by
  simp only [loadValidationItems, List.mem_map, mem_itemRows, and_assoc]

theorem hasFinalRedactions_sheet {tables : Tables Id} {ids : List Id}
    {parameters : ProductionParameters Id} {item : EvidenceItem Id} (hitem : item.id ∈ ids) :
    (sheetOf toLowerCase tables ids parameters item).hasFinalRedactions ↔
      ∃ row ∈ tables.redactions, row.evidenceItemId = item.id ∧ row.stage = .final := by
  simp only [sheetOf, List.any_eq_true, mem_rowsOf, decide_eq_true_eq]
  refine ⟨?_, ?_⟩
  · rintro ⟨row, ⟨hrow, -⟩, h⟩
    exact ⟨row, hrow, h⟩
  · rintro ⟨row, hrow, hid, hstage⟩
    exact ⟨row, ⟨hrow, item.id, hitem, hid⟩, hid, hstage⟩

/-- A recorded parent stands in a family relationship that touches the selection. -/
theorem parentOf_eq_some {tables : Tables Id} {ids : List Id} {child parent : Id}
    (h : (parentOf tables ids).get? child = some parent) :
    ∃ rel ∈ familyRelationships tables ids, rel.childId = child ∧ rel.parentId = parent := by
  rw [parentOf, JsMap.get?_ofFirst] at h
  have hmem := JsMap.mem_valuesAt.mp (List.mem_of_mem_head? h)
  obtain ⟨rel, hrel, heq⟩ := List.mem_map.mp hmem
  obtain ⟨rfl, rfl⟩ := Prod.mk.inj heq
  exact ⟨rel, hrel, rfl, rfl⟩

omit [DecidableEq Id] in
/-- Rows of one identifier are one row. -/
theorem Tables.eq_of_id_eq (tables : Tables Id) {x y : EvidenceItem Id} (hx : x ∈ tables.items)
    (hy : y ∈ tables.items) (h : x.id = y.id) : x = y :=
  List.inj_on_of_nodup_map tables.primaryKey hx hy h

/-! ## Natives -/

/-- An item of the selection has a tag of the policy, for the API as for the worker. -/
theorem policyTagged_iff (tables : Tables Id) (tagIds : List Id) {ids : List Id} {id : Id}
    (hid : id ∈ ids) :
    ((rowsOf (fun id row => row.evidenceItemId = id ∧ row.tagId ∈ tagIds) ids
      tables.tagAssignments).any fun row => row.evidenceItemId = id) ↔
    tagIds.any fun tagId => ((tables.tagAssignments.filter fun row =>
      row.evidenceItemId = id).map TagAssignment.tagId).contains tagId := by
  simp only [List.any_eq_true, mem_rowsOf, decide_eq_true_eq, List.contains_eq_mem, List.mem_map,
    List.mem_filter]
  refine ⟨?_, ?_⟩
  · rintro ⟨row, ⟨hrow, _, _, rfl, htag⟩, rfl⟩
    exact ⟨row.tagId, htag, row, ⟨hrow, rfl⟩, rfl⟩
  · rintro ⟨_, htag, row, ⟨hrow, rfl⟩, rfl⟩
    exact ⟨row, ⟨hrow, _, hid, rfl, htag⟩, rfl⟩

/-- **The API and the worker agree about natives**, unless natives are asked for by a policy
without extensions and tags. -/
theorem natives_agree_iff (tables : Tables Id) (ids : List Id)
    (parameters : ProductionParameters Id) (item : EvidenceItem Id) (hitem : item.id ∈ ids) :
    (wouldProduceNative toLowerCase tables ids parameters item ↔
        wantsNative toLowerCase tables parameters item) ↔
      ¬ ∃ imageFormat includeText, parameters.output = .loadFile imageFormat true includeText ∧
        parameters.nativePolicy.extensions = [] ∧ parameters.nativePolicy.tagIds = [] := by
  simp only [wouldProduceNative, wantsNative]
  rcases parameters.output with _ | _ | ⟨imageFormat, includeNatives, includeText⟩
  · simp
  · simp
  · rcases includeNatives with _ | _
    · simp
    · have htagged := policyTagged_iff tables parameters.nativePolicy.tagIds hitem
      rcases hext : parameters.nativePolicy.extensions with _ | ⟨extension, extensions⟩ <;>
        rcases htags : parameters.nativePolicy.tagIds with _ | ⟨tagId, tagIds⟩
      · -- the one policy where the API says yes and the worker no
        simp
      · rw [htags] at htagged
        simp only [List.length_cons, List.length_nil]
        simpa using htagged
      · simp
      · rw [htags] at htagged
        simp only [List.length_cons]
        by_cases hmem : toLowerCase item.extension ∈ extension :: extensions
        · simp [hmem]
        · simpa [hmem] using htagged

end Facts

/-! ## Examples -/

/-- `toLowerCase` on ASCII. -/
def asciiToLowerCase (s : JsString) : JsString :=
  s.map fun c => if 0x41 ≤ c ∧ c ≤ 0x5A then c + 0x20 else c

/-- Parameters with one saved search and without exclusions. -/
def exampleParameters (includeFamilies : Bool) (output : OutputMode)
    (nativePolicy : NativePolicy ℕ) : ProductionParameters ℕ where
  name := js "Wave 1"
  description := []
  selection := ⟨[], [0], false, .none, includeFamilies⟩
  output
  nativePolicy
  sort := .evidenceId
  redactionStage := .final
  bates := pageNumbers 1 Nat.one_pos

/-- An item that has a native, is clean and is processed. -/
def exampleItem (id : ℕ) : EvidenceItem ℕ where
  id
  kind := .file
  name := js "file"
  extension := js "pdf"
  sourcePath := js "/"
  size := 1
  blobId := some id
  processingStatus := .indexed
  processingDetail := []
  malwareStatus := .clean
  primaryDate := none
  custodian := none

/-- A tenant with some relationships between its items. -/
def exampleTables (items : List (EvidenceItem ℕ)) (relationships : List (Relationship ℕ))
    (redactions : List (Redaction ℕ)) (primaryKey : (items.map EvidenceItem.id).Nodup)
    (foreignKeys : ∀ rel ∈ relationships,
      rel.parentId ∈ items.map EvidenceItem.id ∧ rel.childId ∈ items.map EvidenceItem.id) :
    Tables ℕ where
  items
  relationships
  redactions
  tagAssignments := []
  emailMetadata := []
  extractedTexts := []
  productionItems := []
  primaryKey
  foreignKeys

/-- A tenant with one item. -/
def oneItem : Tables ℕ := exampleTables [exampleItem 1] [] [] (by simp) (by simp)

theorem natives_agree_iff_example :
    wouldProduceNative asciiToLowerCase oneItem [1]
        (exampleParameters false (.loadFile .none true true) ⟨[js "pdf"], []⟩) (exampleItem 1) ↔
      wantsNative asciiToLowerCase oneItem
        (exampleParameters false (.loadFile .none true true) ⟨[js "pdf"], []⟩) (exampleItem 1) := by
  apply (natives_agree_iff asciiToLowerCase oneItem [1] _ (exampleItem 1) (by decide)).mpr
  rintro ⟨_, _, -, hextensions, -⟩
  exact absurd hextensions (by decide)

/-- **Natives of every kind**: the API checks them, the worker produces none. -/
theorem unfiltered_natives_disagree :
    wouldProduceNative asciiToLowerCase oneItem [1]
        (exampleParameters false (.loadFile .none true true) ⟨[], []⟩) (exampleItem 1) = true ∧
      wantsNative asciiToLowerCase oneItem
        (exampleParameters false (.loadFile .none true true) ⟨[], []⟩) (exampleItem 1) = false := by
  decide

end AegCloudDfir.Production
