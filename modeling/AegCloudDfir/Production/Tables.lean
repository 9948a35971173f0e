import AegCloudDfir.Production.Bates
import AegCloudDfir.Production.Validator

/-!
# What productions are made from

The parameters of a production (`productionParameters` of
`packages/contracts/src/productions.ts`) and the tables of one tenant that the validation,
the selection and the worker read (`packages/database/prisma/schema.prisma`), with the
columns they read. Every query of the source names the tenant, so that the rows of other
tenants play no part.

A query over many identifiers is made in batches (`chunk`, `queryInChunks`); `rowsOf` is
such a query. A query that does not ask for an order gives the rows in the order of the
table, which may be any.
-/

namespace AegCloudDfir.Production

/-! ## Parameters -/

/-- `excludePreviouslyProduced` -/
inductive Exclusion (Id : Type) : Type where
  | none
  | anyEarlier
  | selected (productionIds : List Id)
  deriving DecidableEq

/-- `selection` -/
structure SelectionParameters (Id : Type) where
  tagIds : List Id
  savedSearchIds : List Id
  inverted : Bool
  excludePreviouslyProduced : Exclusion Id
  includeFamilies : Bool
  deriving DecidableEq

/-- `nativePolicy` -/
structure NativePolicy (Id : Type) where
  extensions : List JsString
  tagIds : List Id
  deriving DecidableEq

/-- `productionSort` -/
inductive ProductionSort : Type where
  | folderFilename
  | filename
  | primaryDateAsc
  | primaryDateDesc
  | custodian
  | evidenceId
  deriving DecidableEq

/-- `productionParameters` -/
structure ProductionParameters (Id : Type) where
  name : JsString
  description : JsString
  selection : SelectionParameters Id
  output : OutputMode
  nativePolicy : NativePolicy Id
  sort : ProductionSort
  redactionStage : RedactionStage
  bates : BatesConfig

/-! ## Tables -/

/-- `EvidenceKind` -/
inductive EvidenceKind : Type where
  | email
  | attachment
  | file
  | folderMetadata
  | container
  | auditRecord
  | auditBatch
  | chatMessage
  | chatConversation
  deriving DecidableEq

/-- `ProcessingStatus` -/
inductive ProcessingStatus : Type where
  | pending
  | parsed
  | extracted
  | ocrComplete
  | previewReady
  | indexed
  | failed
  | exception
  deriving DecidableEq

/-- `MalwareStatus` -/
inductive MalwareStatus : Type where
  | notScanned
  | clean
  | infected
  | scanFailed
  | objectMissing
  deriving DecidableEq

/-- `RelationshipKind` -/
inductive RelationshipKind : Type where
  | attachment
  | inlineAttachment
  | containerMember
  | duplicateOf
  | versionOf
  | sourcePathAncestor
  | family
  deriving DecidableEq

/-- A row of `evidence_items`. -/
structure EvidenceItem (Id : Type) where
  id : Id
  kind : EvidenceKind
  name : JsString
  extension : JsString
  sourcePath : JsString
  size : ℕ
  blobId : Option Id
  processingStatus : ProcessingStatus
  processingDetail : JsString
  malwareStatus : MalwareStatus
  /-- as `toISOString` writes it -/
  primaryDate : Option JsString
  /-- the address of the custodian -/
  custodian : Option JsString

/-- A row of `evidence_relationships`. -/
structure Relationship (Id : Type) where
  parentId : Id
  childId : Id
  kind : RelationshipKind
  deriving DecidableEq

/-- A row of `redactions`. -/
structure Redaction (Id : Type) where
  evidenceItemId : Id
  stage : RedactionStage

/-- A row of `tag_assignments`, with the tag it is of. -/
structure TagAssignment (Id : Type) where
  evidenceItemId : Id
  tagId : Id
  /-- `tag.isPrivileged` -/
  isPrivileged : Bool

/-- A row of `email_metadata`. -/
structure EmailMetadata (Id : Type) where
  evidenceItemId : Id
  isEncrypted : Bool

/-- A row of `production_items`, with the production its run is of. -/
structure ProductionItem (Id : Type) where
  evidenceItemId : Id
  productionId : Id

/-- The tables of a tenant. -/
structure Tables (Id : Type) where
  items : List (EvidenceItem Id)
  relationships : List (Relationship Id)
  redactions : List (Redaction Id)
  tagAssignments : List (TagAssignment Id)
  emailMetadata : List (EmailMetadata Id)
  /-- the items of the rows of `extracted_texts` -/
  extractedTexts : List Id
  productionItems : List (ProductionItem Id)
  primaryKey : (items.map EvidenceItem.id).Nodup
  foreignKeys : ∀ rel ∈ relationships,
    rel.parentId ∈ items.map EvidenceItem.id ∧ rel.childId ∈ items.map EvidenceItem.id

/-! ## Queries -/

/-- `chunk` and `chunkIds` -/
def chunk {α : Type} (size : ℕ) (items : List α) : List (List α) :=
  (List.range ((items.length + size - 1) / size)).map fun k =>
    (items.drop (k * size)).take size

/-- `QUERY_CHUNK`, `FAMILY_QUERY_CHUNK` and `QUERY_ID_CHUNK` -/
def queryChunk : ℕ := 5000

theorem queryChunk_pos : 0 < queryChunk := by decide

section Queries

variable {Id : Type} [DecidableEq Id]

/-- The rows that a predicate relates to one of the identifiers, batch by batch. -/
def rowsOf {ρ : Type} (touches : Id → ρ → Bool) (ids : List Id) (rows : List ρ) : List ρ :=
  (chunk queryChunk ids).flatMap fun batch => rows.filter fun row => batch.any (touches · row)

/-- `FAMILY_RELATIONSHIP_KINDS` -/
def familyRelationshipKinds : List RelationshipKind := [.attachment, .inlineAttachment, .family]

/-- `isFamilyRelationshipKind` -/
def isFamilyRelationshipKind (kind : RelationshipKind) : Bool := kind ∈ familyRelationshipKinds

/-- The family relationships that touch one of the identifiers. -/
def familyRelationships (tables : Tables Id) (ids : List Id) : List (Relationship Id) :=
  rowsOf (fun id rel => isFamilyRelationshipKind rel.kind ∧ (rel.parentId = id ∨ rel.childId = id))
    ids tables.relationships

/-- The rows of the items with the identifiers. -/
def itemRows (tables : Tables Id) (ids : List Id) : List (EvidenceItem Id) :=
  rowsOf (fun id item => item.id = id) ids tables.items

theorem mem_chunk {α : Type} {size : ℕ} (hsize : 0 < size) {items : List α} {a : α} :
    (∃ batch ∈ chunk size items, a ∈ batch) ↔ a ∈ items := by
  simp only [chunk, List.mem_map, List.mem_range]
  refine ⟨?_, ?_⟩
  · rintro ⟨_, ⟨k, -, rfl⟩, ha⟩
    exact List.mem_of_mem_drop (List.mem_of_mem_take ha)
  · intro ha
    obtain ⟨i, hi, rfl⟩ := List.getElem_of_mem ha
    have hdiv : i / size * size + i % size = i := Nat.div_add_mod' i size
    have hmod : i % size < size := Nat.mod_lt i hsize
    refine ⟨_, ⟨i / size, ?_, rfl⟩, ?_⟩
    · apply (Nat.lt_div_iff_mul_lt hsize).mpr
      omega
    · apply List.mem_iff_getElem?.mpr
      refine ⟨i % size, ?_⟩
      rw [List.getElem?_take, if_pos hmod, List.getElem?_drop, hdiv]
      exact List.getElem?_eq_getElem hi

omit [DecidableEq Id] in
/-- **A query in batches finds what it asks for.** -/
theorem mem_rowsOf {ρ : Type} {touches : Id → ρ → Bool} {ids : List Id} {rows : List ρ} {row : ρ} :
    row ∈ rowsOf touches ids rows ↔ row ∈ rows ∧ ∃ id ∈ ids, touches id row := by
  simp only [rowsOf, List.mem_flatMap, List.mem_filter, List.any_eq_true]
  refine ⟨?_, ?_⟩
  · rintro ⟨batch, hbatch, hrow, id, hid, htouches⟩
    exact ⟨hrow, id, (mem_chunk (by decide)).mp ⟨batch, hbatch, hid⟩, htouches⟩
  · rintro ⟨hrow, id, hid, htouches⟩
    obtain ⟨batch, hbatch, hid⟩ := (mem_chunk queryChunk_pos).mpr hid
    exact ⟨batch, hbatch, hrow, id, hid, htouches⟩

theorem mem_itemRows {tables : Tables Id} {ids : List Id} {item : EvidenceItem Id} :
    item ∈ itemRows tables ids ↔ item ∈ tables.items ∧ item.id ∈ ids := by
  simp [itemRows, mem_rowsOf, eq_comm]

omit [DecidableEq Id] in
/-- The batches are the list, cut up. -/
theorem chunk_flatten {α : Type} {size : ℕ} (hsize : 0 < size) (items : List α) :
    (chunk size items).flatten = items := by
  -- the first `n` batches are the first `n * size` of the items
  have htake : ∀ n, ((List.range n).map fun k => (items.drop (k * size)).take size).flatten =
      items.take (n * size) := by
    intro n
    induction n with
    | zero => simp
    | succ n ih =>
      rw [List.range_succ, List.map_append, List.flatten_append, ih, Nat.add_one_mul, List.take_add]
      simp
  rw [chunk, htake, List.take_of_length_le]
  have hdiv := Nat.div_add_mod (items.length + size - 1) size
  have hmod := Nat.mod_lt (items.length + size - 1) hsize
  rw [Nat.mul_comm] at hdiv
  omega

/-- **No row is found twice** if no identifier is asked for twice. -/
theorem nodup_itemRows (tables : Tables Id) {ids : List Id} (hids : ids.Nodup) :
    ((itemRows tables ids).map EvidenceItem.id).Nodup := by
  have hnodup : (itemRows tables ids).Nodup := by
    rw [← chunk_flatten queryChunk_pos ids, List.nodup_flatten] at hids
    rw [itemRows, rowsOf, List.nodup_flatMap]
    refine ⟨fun batch _ => (List.Nodup.of_map _ tables.primaryKey).filter _, hids.2.imp ?_⟩
    intro batch batch' hdisjoint item hitem hitem'
    simp only [List.mem_filter, List.any_eq_true, decide_eq_true_eq, exists_eq_right'] at hitem hitem'
    exact hdisjoint hitem.2 hitem'.2
  apply hnodup.map_on
  intro x hx y hy hxy
  exact List.inj_on_of_nodup_map tables.primaryKey (mem_itemRows.mp hx).1 (mem_itemRows.mp hy).1 hxy

theorem mem_familyRelationships {tables : Tables Id} {ids : List Id} {rel : Relationship Id} :
    rel ∈ familyRelationships tables ids ↔ rel ∈ tables.relationships ∧
      isFamilyRelationshipKind rel.kind ∧ (rel.parentId ∈ ids ∨ rel.childId ∈ ids) := by
  simp only [familyRelationships, mem_rowsOf, decide_eq_true_eq]
  refine ⟨?_, ?_⟩
  · rintro ⟨hrel, id, hid, hkind, rfl | rfl⟩
    · exact ⟨hrel, hkind, .inl hid⟩
    · exact ⟨hrel, hkind, .inr hid⟩
  · rintro ⟨hrel, hkind, hid | hid⟩
    · exact ⟨hrel, _, hid, hkind, .inl rfl⟩
    · exact ⟨hrel, _, hid, hkind, .inr rfl⟩

end Queries

end AegCloudDfir.Production
