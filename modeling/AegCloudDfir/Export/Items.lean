import AegCloudDfir.Production.Tables
import AegCloudDfir.Search.Validate

/-!
# The items of an export

What an export (`apps/worker/src/processors/export-run.ts`) reads: the rows of the items that
are selected, each with the relationships it is the child of, and the natives. How a path in
the archive is made from a row, and the family index, which decides the paths of the parents
before any item is written.

Everything else that has rows is one snapshot here. The source reads in batches, each in a
transaction of its own; it relies on evidence being write-once, and so does the model.
-/

namespace AegCloudDfir.Export

open Production (EvidenceKind RelationshipKind chunk queryChunk isFamilyRelationshipKind)
open Search (trim)

/-! ## Rows -/

/-- `blob`: where the native of an item lies. -/
structure Blob where
  /-- `storageClass === 'quarantine'` -/
  quarantined : Bool
  objectKey : JsString
  deriving DecidableEq

/-- A row of `childRelationships`: a relationship that the item is the child of. -/
structure Relationship where
  parentId : JsString
  kind : RelationshipKind
  deriving DecidableEq

/-- `emailMetadata`; the dates as `toISOString` writes them. -/
structure EmailMetadata where
  subject : JsString
  receivedAt : Option JsString
  sentAt : Option JsString
  deriving DecidableEq

/-- A row of `evidence_items`, with what an export loads with it. -/
structure Item where
  id : JsString
  kind : EvidenceKind
  name : JsString
  sourcePath : JsString
  size : ℕ
  sha256 : JsString
  blob : Option Blob
  custodianId : Option JsString
  custodianEmail : Option JsString
  collectionId : Option JsString
  primaryDate : Option JsString
  emailMetadata : Option EmailMetadata
  childRelationships : List Relationship
  deriving DecidableEq

/-- The items of a tenant. -/
structure Tables where
  items : List Item
  primaryKey : (items.map Item.id).Nodup

/-- What comes of opening the native of an item and reading it to its end. -/
inductive Delivery (Bytes : Type) : Type where
  /-- `getStream` throws -/
  | unavailable (error : JsString)
  /-- the stream breaks off -/
  | interrupted (received : Bytes) (error : JsString)
  | complete (bytes : Bytes)

/-- `isAttachmentKind` -/
def isAttachmentKind : RelationshipKind → Bool
  | .attachment => true
  | .inlineAttachment => true
  | _ => false

/-- The first relationship that makes the item an attachment. -/
def Item.firstAttachment (item : Item) : Option Relationship :=
  item.childRelationships.find? fun rel => isAttachmentKind rel.kind

/-! ## Paths -/

/-- `s.replace(/\.{2,}/g, '.')` -/
def collapseDots : JsString → JsString
  | [] => []
  | [c] => [c]
  | c :: d :: s =>
    if c = unitOf '.' ∧ d = unitOf '.' then collapseDots (d :: s) else c :: collapseDots (d :: s)

/-- The part of a name from its last dot on, unless that is the first character. -/
def extensionFrom (name : JsString) : JsString :=
  match (name.drop 1).reverse.splitAt ((name.drop 1).reverse.findIdx (· = unitOf '.')) with
  | (_, []) => []
  | (ext, dot :: _) => dot :: ext.reverse

/-- `sanitizeFilename` of `packages/evidence/src/objectKeys.ts` -/
def sanitizeFilename (filename : JsString) : JsString :=
  let name := filename.filter fun c => ¬ (c ≤ 0x1F ∨ c = 0x7F)
  let name := name.filter fun c => ¬ (c = unitOf '/' ∨ c = unitOf '\\')
  let name := (collapseDots name).dropWhile (· = unitOf '.')
  let name := trim name
  if name.length = 0 then js "file"
  else if name.length > 255 then
    let ext := extensionFrom name
    -- a negative end of `slice` counts from the end of the string
    if ext.length ≤ 255 then name.take (255 - ext.length) ++ ext
    else name.take (name.length - (ext.length - 255)) ++ ext
  else name

theorem sanitizeFilename_ne_nil (filename : JsString) : sanitizeFilename filename ≠ [] := by
  simp only [sanitizeFilename]
  generalize trim _ = name
  by_cases hempty : name.length = 0
  · rw [if_pos hempty]
    decide
  · rw [if_neg hempty]
    by_cases hlong : name.length > 255
    · rw [if_pos hlong]
      intro h
      split_ifs at h with hext
      · obtain ⟨htake, hnil⟩ := List.append_eq_nil_iff.mp h
        rw [hnil, List.take_eq_nil_iff] at htake
        rcases htake with hzero | hname
        · exact absurd hzero (by decide)
        · exact hempty (by rw [hname]; rfl)
      · exact hext (by rw [(List.append_eq_nil_iff.mp h).2]; decide)
    · rw [if_neg hlong]
      rintro rfl
      exact hempty rfl

/-- `archiveFileName` -/
def archiveFileName (item : Item) : JsString :=
  sanitizeFilename
    (if item.kind = .email ∧ ¬ (js ".eml").isSuffixOf item.name then item.name ++ js ".eml"
    else item.name)

/-- `custodianDir` -/
def custodianDir (email : Option JsString) : JsString :=
  sanitizeFilename (email.getD (js "unassigned"))

/-- A path before and from its extension on: `/(\.[^./]+)?$/`. -/
def splitExtension (path : JsString) : JsString × JsString :=
  let tail := path.reverse.takeWhile fun c => c ≠ unitOf '.' ∧ c ≠ unitOf '/'
  match path.reverse.drop tail.length with
  | [] => (path, [])
  | c :: stem =>
    if tail ≠ [] ∧ c = unitOf '.' then (stem.reverse, c :: tail.reverse) else (path, [])

/-- `withIdSuffix`; the id is a UUID, so that there is no `$` in it. -/
def withIdSuffix (path id : JsString) : JsString :=
  (splitExtension path).1 ++ js "_" ++ id.take 8 ++ (splitExtension path).2

theorem length_splitExtension (path : JsString) :
    (splitExtension path).1.length + (splitExtension path).2.length = path.length := by
  simp only [splitExtension]
  split
  · rfl
  · rename_i c stem hstem
    have hlength := congrArg List.length hstem
    have htail := (List.takeWhile_prefix (p := fun c => c ≠ unitOf '.' ∧ c ≠ unitOf '/')
      (l := path.reverse)).length_le
    rw [List.length_drop, List.length_cons] at hlength
    rw [List.length_reverse] at htail hlength
    split_ifs
    · simp only [List.length_reverse, List.length_cons]
      omega
    · rfl

/-- The suffix changes the path. -/
theorem withIdSuffix_ne (path id : JsString) : withIdSuffix path id ≠ path := by
  intro h
  have hlength := congrArg List.length h
  have hsplit := length_splitExtension path
  have hbar : (js "_").length = 1 := by decide
  simp only [withIdSuffix, List.length_append] at hlength
  omega

/-! ## Batches -/

/-- The rows of some items, `orderBy: { id: 'asc' }`. -/
def rowsById (tables : Tables) (ids : List JsString) : List Item :=
  (tables.items.filter fun item => item.id ∈ ids).insertionSort fun a b => a.id ≤ b.id

/-- `loadItemsInBatches` -/
def loadItemsInBatches (tables : Tables) (ids : List JsString) : List (List Item) :=
  (chunk queryChunk (sorted ids)).map (rowsById tables)

theorem mem_rowsById {tables : Tables} {ids : List JsString} {item : Item} :
    item ∈ rowsById tables ids ↔ item ∈ tables.items ∧ item.id ∈ ids := by
  rw [rowsById, (List.perm_insertionSort _ _).mem_iff, List.mem_filter, decide_eq_true_iff]

/-- Batches of rows are without repetition if the ids are. -/
theorem nodup_batches (tables : Tables) {ids : List JsString} (hids : ids.Nodup) :
    ((chunk queryChunk ids).flatMap fun batch =>
      tables.items.filter fun item => item.id ∈ batch).Nodup := by
  rw [← Production.chunk_flatten Production.queryChunk_pos ids, List.nodup_flatten] at hids
  rw [List.nodup_flatMap]
  refine ⟨fun batch _ => (List.Nodup.of_map _ tables.primaryKey).filter _, hids.2.imp ?_⟩
  intro batch batch' hdisjoint item hitem hitem'
  simp only [List.mem_filter, decide_eq_true_eq] at hitem hitem'
  exact hdisjoint hitem.2 hitem'.2

/-- **The batches hold the rows of the items**, -/
theorem mem_loadItemsInBatches {tables : Tables} {ids : List JsString} {item : Item} :
    item ∈ (loadItemsInBatches tables ids).flatten ↔ item ∈ tables.items ∧ item.id ∈ ids := by
  rw [loadItemsInBatches, ← List.flatMap_def, List.mem_flatMap]
  refine ⟨?_, ?_⟩
  · rintro ⟨batch, hbatch, hitem⟩
    rw [mem_rowsById] at hitem
    exact ⟨hitem.1, mem_sorted.mp ((Production.mem_chunk (by decide)).mp ⟨batch, hbatch, hitem.2⟩)⟩
  · rintro ⟨hitem, hid⟩
    obtain ⟨batch, hbatch, hid⟩ :=
      (Production.mem_chunk Production.queryChunk_pos).mpr (mem_sorted.mpr hid)
    exact ⟨batch, hbatch, mem_rowsById.mpr ⟨hitem, hid⟩⟩

/-- two rows with one id are one row, -/
theorem Tables.eq_of_id_eq (tables : Tables) {a b : Item} (ha : a ∈ tables.items)
    (hb : b ∈ tables.items) (h : a.id = b.id) : a = b :=
  List.inj_on_of_nodup_map tables.primaryKey ha hb h

/-- and no row comes twice if no id is asked for twice. -/
theorem nodup_loadItemsInBatches (tables : Tables) {ids : List JsString} (hids : ids.Nodup) :
    ((loadItemsInBatches tables ids).flatten.map Item.id).Nodup := by
  have hperm : (loadItemsInBatches tables ids).flatten.Perm
      ((chunk queryChunk (sorted ids)).flatMap fun batch =>
        tables.items.filter fun item => item.id ∈ batch) := by
    rw [loadItemsInBatches, ← List.flatMap_def]
    exact List.Perm.flatMap_left _ fun batch _ => List.perm_insertionSort _ _
  have hnodup := hperm.nodup_iff.mpr (nodup_batches tables ((sorted_perm ids).nodup_iff.mpr hids))
  apply hnodup.map_on
  intro a ha b hb hab
  exact tables.eq_of_id_eq (mem_loadItemsInBatches.mp ha).1 (mem_loadItemsInBatches.mp hb).1 hab

/-! ## What is exported -/

/-- The rows of `evidence_relationships` of some kinds: parent and child. -/
def relationships (tables : Tables) (kinds : RelationshipKind → Bool) :
    List (JsString × JsString) :=
  tables.items.flatMap fun item =>
    (item.childRelationships.filter fun rel => kinds rel.kind).map fun rel =>
      (rel.parentId, item.id)

/-- `expandFamilies` -/
def expandFamilies (tables : Tables) (ids : List JsString) : List JsString :=
  let rows := relationships tables isFamilyRelationshipKind
  let relations := (chunk (queryChunk / 2) ids).flatMap fun batch =>
    rows.filter fun rel => rel.1 ∈ batch ∨ rel.2 ∈ batch
  let parentIds := distinct (relations.map Prod.fst)
  let siblings := (chunk queryChunk parentIds).flatMap fun batch =>
    rows.filter fun rel => rel.1 ∈ batch
  addAll (addAll ids (relations.flatMap fun rel => [rel.1, rel.2])) (siblings.map Prod.snd)

/-- The ids of a run: what `resolveSelectionIds` finds, with the families if they are asked
for. -/
def exportedIds (tables : Tables) (includeFamilies : Bool) (resolved : List JsString) :
    List JsString :=
  if includeFamilies then expandFamilies tables (distinct resolved) else distinct resolved

theorem nodup_exportedIds (tables : Tables) (includeFamilies : Bool) (resolved : List JsString) :
    (exportedIds tables includeFamilies resolved).Nodup := by
  rw [exportedIds]
  split_ifs
  · exact nodup_addAll _ (nodup_addAll _ (nodup_distinct resolved))
  · exact nodup_distinct resolved

/-- The items of a run, as they are loaded. -/
def selectedItems (tables : Tables) (includeFamilies : Bool) (resolved : List JsString) :
    List Item :=
  (loadItemsInBatches tables (exportedIds tables includeFamilies resolved)).flatten

theorem nodup_selectedItems (tables : Tables) (includeFamilies : Bool) (resolved : List JsString) :
    ((selectedItems tables includeFamilies resolved).map Item.id).Nodup :=
  nodup_loadItemsInBatches tables (nodup_exportedIds tables includeFamilies resolved)

theorem selectedItems_unique {tables : Tables} {includeFamilies : Bool} {resolved : List JsString}
    {a b : Item} (ha : a ∈ selectedItems tables includeFamilies resolved)
    (hb : b ∈ selectedItems tables includeFamilies resolved) (h : a.id = b.id) : a = b :=
  tables.eq_of_id_eq (mem_loadItemsInBatches.mp ha).1 (mem_loadItemsInBatches.mp hb).1 h

/-! ## The family index -/

/-- `attachmentLayout` -/
inductive AttachmentLayout : Type where
  | inline
  | extracted
  deriving DecidableEq

/-- `FamilyIndex` -/
structure FamilyIndex where
  parents : List JsString
  nameById : JsMap JsString JsString
  pathById : JsMap JsString JsString

/-- The path of a parent if no other parent has taken it: `base`. -/
def basePath (item : Item) : JsString :=
  js "custodian/" ++ custodianDir item.custodianEmail ++ js "/" ++ archiveFileName item

/-- The path of a parent when some paths are taken. -/
def parentPath (taken : List JsString) (parent : Item) : JsString :=
  if basePath parent ∈ taken then withIdSuffix (basePath parent) parent.id else basePath parent

/-- One round of the loop over the parents: `taken` and `pathById`. -/
def claimPath (s : List JsString × JsMap JsString JsString) (parent : Item) :
    List JsString × JsMap JsString JsString :=
  (addTo s.1 (parentPath s.1 parent), s.2.set parent.id (parentPath s.1 parent))

/-- The loop. -/
def claimPaths (parents : List Item) : List JsString × JsMap JsString JsString :=
  parents.foldl claimPath ([], [])

/-- Ids that an exported attachment points at. -/
def parentIds (tables : Tables) (ids : List JsString) : List JsString :=
  distinct (((chunk queryChunk ids).flatMap fun batch =>
    (relationships tables isAttachmentKind).filter fun rel => rel.2 ∈ batch).map Prod.fst)

/-- `named`, in the order of the ids: the parents that are exported themselves. -/
def namedParents (tables : Tables) (ids : List JsString) : List Item :=
  ((chunk queryChunk ((parentIds tables ids).filter fun id => id ∈ ids)).flatMap fun batch =>
    tables.items.filter fun item => item.id ∈ batch).insertionSort fun a b => a.id ≤ b.id

/-- `buildFamilyIndex` -/
def buildFamilyIndex (tables : Tables) (ids : List JsString) (layout : AttachmentLayout) :
    FamilyIndex where
  parents := parentIds tables ids
  nameById := .ofEntries ((namedParents tables ids).map fun item => (item.id, item.name))
  pathById := if layout = .inline then (claimPaths (namedParents tables ids)).2 else []

theorem mem_relationships {tables : Tables} {kinds : RelationshipKind → Bool}
    {rel : JsString × JsString} :
    rel ∈ relationships tables kinds ↔ ∃ item ∈ tables.items, ∃ r ∈ item.childRelationships,
      kinds r.kind ∧ rel = (r.parentId, item.id) := by
  simp only [relationships, List.mem_flatMap, List.mem_map, List.mem_filter]
  refine ⟨?_, ?_⟩
  · rintro ⟨item, hitem, r, ⟨hr, hkind⟩, rfl⟩
    exact ⟨item, hitem, r, hr, hkind, rfl⟩
  · rintro ⟨item, hitem, r, hr, hkind, rfl⟩
    exact ⟨item, hitem, r, ⟨hr, hkind⟩, rfl⟩

theorem mem_parentIds {tables : Tables} {ids : List JsString} {id : JsString} :
    id ∈ parentIds tables ids ↔ ∃ item ∈ tables.items, item.id ∈ ids ∧
      ∃ rel ∈ item.childRelationships, isAttachmentKind rel.kind ∧ rel.parentId = id := by
  simp only [parentIds, mem_distinct, List.mem_map, List.mem_flatMap, List.mem_filter,
    decide_eq_true_eq, mem_relationships]
  refine ⟨?_, ?_⟩
  · rintro ⟨_, ⟨batch, hbatch, ⟨item, hitem, rel, hrel, hkind, rfl⟩, hid⟩, rfl⟩
    exact ⟨item, hitem, (Production.mem_chunk (by decide)).mp ⟨batch, hbatch, hid⟩, rel, hrel,
      hkind, rfl⟩
  · rintro ⟨item, hitem, hid, rel, hrel, hkind, rfl⟩
    obtain ⟨batch, hbatch, hid⟩ :=
      (Production.mem_chunk Production.queryChunk_pos).mpr hid
    exact ⟨_, ⟨batch, hbatch, ⟨item, hitem, rel, hrel, hkind, rfl⟩, hid⟩, rfl⟩

theorem mem_namedParents {tables : Tables} {ids : List JsString} {item : Item} :
    item ∈ namedParents tables ids ↔
      item ∈ tables.items ∧ item.id ∈ ids ∧ item.id ∈ parentIds tables ids := by
  rw [namedParents, (List.perm_insertionSort _ _).mem_iff]
  simp only [List.mem_flatMap, List.mem_filter, decide_eq_true_eq]
  refine ⟨?_, ?_⟩
  · rintro ⟨batch, hbatch, hitem, hid⟩
    have hboth := (Production.mem_chunk (by decide)).mp ⟨batch, hbatch, hid⟩
    rw [List.mem_filter, decide_eq_true_iff] at hboth
    exact ⟨hitem, hboth.2, hboth.1⟩
  · rintro ⟨hitem, hid, hparent⟩
    have hboth : item.id ∈ (parentIds tables ids).filter fun id => id ∈ ids :=
      List.mem_filter.mpr ⟨hparent, decide_eq_true hid⟩
    obtain ⟨batch, hbatch, hid⟩ :=
      (Production.mem_chunk Production.queryChunk_pos).mpr hboth
    exact ⟨batch, hbatch, hitem, hid⟩

theorem nodup_namedParents (tables : Tables) (ids : List JsString) :
    ((namedParents tables ids).map Item.id).Nodup := by
  have hnodup : (namedParents tables ids).Nodup := by
    apply (List.perm_insertionSort _ _).nodup_iff.mpr
    exact nodup_batches tables ((nodup_distinct _).filter _)
  apply hnodup.map_on
  intro a ha b hb hab
  exact tables.eq_of_id_eq (mem_namedParents.mp ha).1 (mem_namedParents.mp hb).1 hab

/-- The parents come in the order of their ids. -/
theorem namedParents_pairwise (tables : Tables) (ids : List JsString) :
    (namedParents tables ids).Pairwise fun a b => a.id < b.id := by
  have : Std.Total fun a b : Item => a.id ≤ b.id := ⟨fun a b => le_total a.id b.id⟩
  have : IsTrans Item fun a b => a.id ≤ b.id := ⟨fun _ _ _ => le_trans⟩
  have hle : (namedParents tables ids).Pairwise fun a b => a.id ≤ b.id :=
    List.pairwise_insertionSort _ _
  have hne := nodup_namedParents tables ids
  rw [List.Nodup, List.pairwise_map] at hne
  exact (hle.and hne).imp fun hboth => lt_of_le_of_ne hboth.1 hboth.2

/-! ### The paths of the parents -/

section Paths

variable {parents : List Item}

theorem claimPaths_concat (parents : List Item) (parent : Item) :
    claimPaths (parents ++ [parent]) = claimPath (claimPaths parents) parent := by
  rw [claimPaths, List.foldl_append]
  rfl

theorem nodup_of_concat {parent : Item} (h : ((parents ++ [parent]).map Item.id).Nodup) :
    (parents.map Item.id).Nodup ∧ parent.id ∉ parents.map Item.id := by
  rw [List.map_append, List.map_singleton, List.nodup_append_comm, List.singleton_append,
    List.nodup_cons] at h
  exact ⟨h.2, h.1⟩

theorem keys_claimPaths (h : (parents.map Item.id).Nodup) :
    (claimPaths parents).2.map Prod.fst = parents.map Item.id := by
  induction parents using List.reverseRecOn with
  | nil => rfl
  | append_singleton parents parent ih =>
    obtain ⟨hnodup, hnew⟩ := nodup_of_concat h
    rw [← ih hnodup] at hnew
    rw [claimPaths_concat, claimPath, JsMap.set, if_neg hnew, List.map_append, ih hnodup,
      List.map_append]
    rfl

/-- The paths that are taken are those of the map. -/
theorem mem_taken (h : (parents.map Item.id).Nodup) {path : JsString} :
    path ∈ (claimPaths parents).1 ↔ path ∈ (claimPaths parents).2.map Prod.snd := by
  induction parents using List.reverseRecOn with
  | nil => rfl
  | append_singleton parents parent ih =>
    obtain ⟨hnodup, hnew⟩ := nodup_of_concat h
    rw [← keys_claimPaths hnodup] at hnew
    rw [claimPaths_concat, claimPath, JsMap.set, if_neg hnew, mem_addTo, ih hnodup,
      List.map_append, List.mem_append, List.map_singleton, List.mem_singleton]

theorem get?_claimPaths {before after : List Item} {parent : Item}
    (h : ((before ++ parent :: after).map Item.id).Nodup) :
    (claimPaths (before ++ parent :: after)).2.get? parent.id =
      some (parentPath (claimPaths before).1 parent) := by
  induction after using List.reverseRecOn with
  | nil =>
    rw [claimPaths_concat, claimPath, JsMap.get?_set, if_pos rfl]
  | append_singleton after last ih =>
    rw [← List.cons_append, ← List.append_assoc] at h ⊢
    obtain ⟨hnodup, hnew⟩ := nodup_of_concat h
    have hne : last.id ≠ parent.id := by
      intro heq
      apply hnew
      rw [heq]
      exact List.mem_map_of_mem (List.mem_append_right _ (List.mem_cons_self ..))
    rw [claimPaths_concat, claimPath, JsMap.get?_set, if_neg hne]
    exact ih hnodup

/-- The path that the name of a parent gives is taken by a parent with a smaller id: because of
its own name, or because it is displaced itself and has that path instead. -/
inductive Displaced (parents : List Item) : Item → Prop
  | byName {other parent : Item} (mem : other ∈ parents) (before : other.id < parent.id)
      (path : basePath other = basePath parent) : Displaced parents parent
  | bySuffix {other parent : Item} (mem : other ∈ parents) (before : other.id < parent.id)
      (displaced : Displaced parents other)
      (path : withIdSuffix (basePath other) other.id = basePath parent) : Displaced parents parent

/-- Taken paths stay taken. -/
theorem taken_mono {before : List Item} (after : List Item) {path : JsString}
    (h : path ∈ (claimPaths before).1) : path ∈ (claimPaths (before ++ after)).1 := by
  induction after using List.reverseRecOn with
  | nil => rwa [List.append_nil]
  | append_singleton after last ih =>
    rw [← List.append_assoc, claimPaths_concat, claimPath, mem_addTo]
    exact .inl ih

/-- A taken path is that of a parent, when its turn came. -/
theorem mem_taken_iff {path : JsString} :
    path ∈ (claimPaths parents).1 ↔ ∃ before other after, parents = before ++ other :: after ∧
      path = parentPath (claimPaths before).1 other := by
  induction parents using List.reverseRecOn with
  | nil => exact iff_of_false (by rintro ⟨⟩) (by simp)
  | append_singleton parents last ih =>
    rw [claimPaths_concat, claimPath, mem_addTo, ih]
    refine ⟨?_, ?_⟩
    · rintro (⟨before, other, after, rfl, hpath⟩ | hpath)
      · exact ⟨before, other, after ++ [last], by simp, hpath⟩
      · exact ⟨parents, last, [], rfl, hpath⟩
    · rintro ⟨before, other, after, hsplit, hpath⟩
      rcases List.eq_nil_or_concat after with rfl | ⟨after, last', rfl⟩
      · obtain ⟨rfl, hlast⟩ := List.append_inj' hsplit rfl
        obtain rfl := List.singleton_inj.mp hlast
        exact .inr hpath
      · rw [List.concat_eq_append, ← List.cons_append, ← List.append_assoc] at hsplit
        obtain ⟨rfl, -⟩ := List.append_inj' hsplit rfl
        exact .inl ⟨before, other, after, rfl, hpath⟩

/-- What a parent is written down with is taken. -/
theorem parentPath_mem_taken (before after : List Item) (parent : Item) :
    parentPath (claimPaths before).1 parent ∈ (claimPaths (before ++ parent :: after)).1 :=
  mem_taken_iff.mpr ⟨before, parent, after, rfl, rfl⟩

/-- Whoever has the path of a parent, it is taken once the parent is written down. -/
theorem basePath_mem_taken (before after : List Item) (parent : Item) :
    basePath parent ∈ (claimPaths (before ++ parent :: after)).1 := by
  by_cases htaken : basePath parent ∈ (claimPaths before).1
  · exact taken_mono _ htaken
  · have hmem := parentPath_mem_taken before after parent
    rwa [parentPath, if_neg htaken] at hmem

/-- Parents with smaller ids come before a parent. -/
theorem mem_before {before after : List Item} {parent other : Item}
    (h : (before ++ parent :: after).Pairwise fun a b => a.id < b.id)
    (hmem : other ∈ before ++ parent :: after) (hlt : other.id < parent.id) : other ∈ before := by
  obtain ⟨-, hafter, -⟩ := List.pairwise_append.mp h
  rcases List.mem_append.mp hmem with hmem | hmem
  · exact hmem
  · rcases List.mem_cons.mp hmem with rfl | hmem
    · exact absurd hlt (lt_irrefl _)
    · exact absurd hlt (lt_asymm ((List.pairwise_cons.mp hafter).1 other hmem))

theorem Displaced.taken {parent : Item} (h : parents.Pairwise fun a b => a.id < b.id)
    (hdisplaced : Displaced parents parent) {before after : List Item}
    (hparents : parents = before ++ parent :: after) : basePath parent ∈ (claimPaths before).1 := by
  induction hdisplaced generalizing before after with
  | byName hmem hlt hpath =>
    subst hparents
    obtain ⟨front, back, rfl⟩ := List.append_of_mem (mem_before h hmem hlt)
    rw [← hpath]
    exact basePath_mem_taken front back _
  | @bySuffix other parent hmem hlt hdisplaced hpath ih =>
    subst hparents
    obtain ⟨front, back, rfl⟩ := List.append_of_mem (mem_before h hmem hlt)
    have htaken := ih (by rw [List.append_assoc, List.cons_append])
    have hsuffix := parentPath_mem_taken front back other
    rwa [parentPath, if_pos htaken, hpath] at hsuffix

theorem displaced_of_taken (h : parents.Pairwise fun a b => a.id < b.id) {before after : List Item}
    {parent : Item} (hparents : parents = before ++ parent :: after)
    (htaken : basePath parent ∈ (claimPaths before).1) : Displaced parents parent := by
  -- on the number of parents before it
  induction hn : before.length using Nat.strong_induction_on generalizing before after parent with
  | _ n ih =>
    obtain ⟨front, other, back, rfl, hpath⟩ := mem_taken_iff.mp htaken
    have hmem : other ∈ parents := by
      rw [hparents]
      simp
    have hlt : other.id < parent.id := by
      rw [hparents] at h
      exact (List.pairwise_append.mp h).2.2 other (by simp) parent (List.mem_cons_self ..)
    rw [parentPath] at hpath
    split_ifs at hpath with hother
    · have hfront : front.length < n := by
        rw [← hn, List.length_append, List.length_cons]
        omega
      have hsplit : parents = front ++ other :: (back ++ parent :: after) := by
        rw [hparents, List.append_assoc, List.cons_append]
      exact .bySuffix hmem hlt (ih front.length hfront hsplit hother rfl) hpath.symm
    · exact .byName hmem hlt hpath.symm

/-- **The path of a parent** is the one that its name gives, or that with its id in it if it is
displaced. Either way somebody has the former. -/
theorem path_spec (h : parents.Pairwise fun a b => a.id < b.id) {parent : Item}
    (hparent : parent ∈ parents) :
    basePath parent ∈ (claimPaths parents).2.map Prod.snd ∧
      ((claimPaths parents).2.get? parent.id = some (basePath parent) ∧ ¬ Displaced parents parent ∨
        (claimPaths parents).2.get? parent.id = some (withIdSuffix (basePath parent) parent.id) ∧
          Displaced parents parent) := by
  have hnodup : (parents.map Item.id).Nodup := by
    rw [List.Nodup, List.pairwise_map]
    exact h.imp fun hlt => hlt.ne
  obtain ⟨before, after, hparents⟩ := List.append_of_mem hparent
  have hget : (claimPaths parents).2.get? parent.id =
      some (parentPath (claimPaths before).1 parent) := by
    rw [hparents] at hnodup ⊢
    exact get?_claimPaths hnodup
  rw [hget, parentPath, ← mem_taken hnodup]
  refine ⟨by rw [hparents]; exact basePath_mem_taken before after parent, ?_⟩
  split_ifs with htaken
  · exact .inr ⟨rfl, displaced_of_taken h hparents htaken⟩
  · exact .inl ⟨rfl, fun hdisplaced => htaken (hdisplaced.taken h hparents)⟩

end Paths

/-- What is no exported parent has no path. -/
theorem get?_pathById_eq_none {tables : Tables} {ids : List JsString} {layout : AttachmentLayout}
    {id : JsString} (h : ∀ parent ∈ namedParents tables ids, parent.id ≠ id) :
    (buildFamilyIndex tables ids layout).pathById.get? id = none := by
  rw [buildFamilyIndex]
  dsimp only
  split_ifs
  · apply JsMap.get?_eq_none
    rw [keys_claimPaths (nodup_namedParents tables ids), List.mem_map]
    rintro ⟨parent, hparent, heq⟩
    exact h parent hparent heq
  · rfl

/-! ## Rows for examples -/

/-- A row with a native. -/
def exampleItem (id : JsString) (kind : EvidenceKind) (name : JsString)
    (childRelationships : List Relationship) : Item where
  id
  kind
  name
  sourcePath := js "Inbox"
  size := 1
  sha256 := id
  blob := some ⟨false, id⟩
  custodianId := none
  custodianEmail := none
  collectionId := none
  primaryDate := none
  emailMetadata := none
  childRelationships

/-- Every native arrives, as the text whose digest it has. -/
def allArrive (id : JsString) : Delivery JsString := .complete id

end AegCloudDfir.Export
