import AegCloudDfir.Families.Expansion
import AegCloudDfir.Search.Authorization
import AegCloudDfir.Search.Convergence
import AegCloudDfir.Search.Exact

/-!
# Tags in the index

`TagsService` (`apps/api/src/tags/tags.service.ts`) creates, edits, deletes, applies and removes
tags. The document of an item says which tags it has and whether one of them is privileged, as it
was when a `search.index` job last read the rows; so whatever changes that has to enqueue a job for
every item concerned.

The rows are those of one tenant, and the index takes every document. Of a tag stands here what is
indexed, and what the operations ask about; of a request, what has passed its schema.

* `create`, `update`, `remove`, `bulk` — the operations, each in one transaction.
* `Fresh` — every document that no job will write again says what the rows say.
* `throughout_synced_iff` — `bulk` keeps it, and `update` and `remove` keep it exactly if no
  document says anything about the tag that they change.
-/

namespace AegCloudDfir.Search.Tagging

open Transition
open Production (EvidenceKind Relationship chunk)
open Families (Batching apiExpandFamilies isParent queryInChunks)

/-! ## Rows and documents -/

/-- `TagFamilyBehavior` -/
inductive TagFamilyBehavior : Type where
  | none
  | applyToFamily
  | applyToDescendants
  deriving DecidableEq

/-- A row of `tags` -/
structure Tag extends TagRow where
  familyBehavior : TagFamilyBehavior
  version : ℤ
  deriving DecidableEq

/-- A row of `tag_assignments` -/
structure TagAssignment where
  tagId : JsString
  evidenceItemId : JsString
  deriving DecidableEq

/-- The rows of a tenant, its index, and the items of its `search.index` jobs. -/
structure State where
  tags : List Tag
  items : List ItemRows
  relationships : List (Relationship JsString)
  assignments : List TagAssignment
  docs : List EvidenceSearchDoc
  queue : List JsString

namespace State

variable (s : State)

/-- The tags of the assignments of an item. -/
def tagsOf (evidenceItemId : JsString) : List TagRow :=
  (s.assignments.filter fun a => a.evidenceItemId = evidenceItemId).filterMap fun a =>
    (s.tags.find? fun tag => tag.id = a.tagId).map Tag.toTagRow

/-- The rows that `processSearchIndex` reads of an item. -/
def rowsOf (item : ItemRows) : ItemRows := { item with tags := s.tagsOf item.id }

end State

/-- What is indexed of a tag. -/
def evidenceTag (row : TagRow) : EvidenceTag :=
  ⟨row.id, row.name, row.isPrivileged, row.isConfidential⟩

/-! ## Operations -/

/-- How an operation fails. -/
inductive TagError : Type where
  | notFound
  | forbidden
  | conflict
  /-- the database refuses -/
  | failed
  deriving DecidableEq

/-- `BULK_CHUNK_SIZE` and `REINDEX_CHUNK` -/
def bulkChunkSize : ℕ := 500

/-- The batches of `FAMILY_QUERY_CHUNK`. -/
def familyBatches : Batching JsString := .ofSize Production.queryChunk Production.queryChunk_pos

/-- `expandDescendants` -/
def expandDescendants (rows : List (Relationship JsString)) (ids : List JsString) :
    List JsString :=
  if ids.length = 0 then []
  else addAll (distinct ids)
    ((queryInChunks familyBatches ids rows isParent).map Relationship.childId)

/-- `expandForBehavior` -/
def expandForBehavior (rows : List (Relationship JsString)) (ids : List JsString) :
    TagFamilyBehavior → List JsString
  | .applyToFamily => apiExpandFamilies familyBatches rows ids
  | .applyToDescendants => expandDescendants rows ids
  | .none => ids

/-- `enqueueReindex`: the items for which it enqueues a job, each under a key of its own. -/
def enqueueReindex (items : List ItemRows) (evidenceItemIds : List JsString) : List JsString :=
  let ids := distinct evidenceItemIds
  let versions := (familyBatches.batches ids).flatMap fun batch =>
    (items.map ItemRows.id).filter (· ∈ batch)
  (chunk bulkChunkSize versions).flatten

/-- `createTagRequest` -/
structure CreateTag where
  name : JsString
  isPrivileged : Bool
  isConfidential : Bool
  familyBehavior : TagFamilyBehavior

/-- The fields of `updateTagSchema`. -/
structure UpdateTag where
  name : Option JsString
  isPrivileged : Option Bool
  isConfidential : Option Bool
  familyBehavior : Option TagFamilyBehavior

/-- The row with the fields that are given. -/
def UpdateTag.apply (fields : UpdateTag) (tag : Tag) : Tag where
  id := tag.id
  name := fields.name.getD tag.name
  isPrivileged := fields.isPrivileged.getD tag.isPrivileged
  isConfidential := fields.isConfidential.getD tag.isConfidential
  familyBehavior := fields.familyBehavior.getD tag.familyBehavior
  version := tag.version + 1

/-- `bulkTagRequest` -/
structure BulkTag where
  tagId : JsString
  evidenceItemIds : List JsString
  /-- `action`: `apply`, or else `remove` -/
  apply : Bool
  expectedTagVersion : Option ℤ

section Operations

variable (s : State)

/-- `TagsService.create`, with the id that the database gives the tag. -/
def create (id : JsString) (input : CreateTag) : Except TagError State :=
  if s.tags.any fun tag => tag.name = input.name then .error .conflict
  else if s.tags.any fun tag => tag.id = id then .error .failed
  else .ok { s with
    tags := s.tags ++
      [⟨⟨id, input.name, input.isPrivileged, input.isConfidential⟩, input.familyBehavior, 1⟩] }

/-- `TagsService.update` -/
def update (id : JsString) (version : ℤ) (fields : UpdateTag) : Except TagError State :=
  match s.tags.find? fun tag => tag.id = id with
  | none => .error .notFound
  | some existing =>
    if existing.version ≠ version then .error .conflict
    else if s.tags.any fun tag => tag.id ≠ id ∧ fields.name = some tag.name then .error .failed
    else .ok { s with tags := s.tags.map fun tag => if tag.id = id then fields.apply tag else tag }

/-- `TagsService.remove`; the assignments go with the tag. -/
def remove (id : JsString) (force : Bool) : Except TagError State :=
  if s.tags.any fun tag => tag.id = id then
    let assignmentCount := s.assignments.countP fun a => a.tagId = id
    if assignmentCount > 0 ∧ force = false then .error .conflict
    else .ok { s with
      tags := s.tags.filter fun tag => tag.id ≠ id
      assignments := s.assignments.filter fun a => a.tagId ≠ id }
  else .error .notFound

/-- `createMany` with `skipDuplicates`, for a chunk of items. -/
def assign (tagId : JsString) (assignments : List TagAssignment) (ids : List JsString) :
    List TagAssignment :=
  addAll assignments (ids.map fun id => ⟨tagId, id⟩)

/-- `deleteMany`, for a chunk of items. -/
def unassign (tagId : JsString) (assignments : List TagAssignment) (ids : List JsString) :
    List TagAssignment :=
  assignments.filter fun a => ¬ (a.tagId = tagId ∧ a.evidenceItemId ∈ ids)

/-- `TagsService.bulk`, for a caller that may view privileged material or not. -/
def bulk (mayViewPrivileged : Bool) (input : BulkTag) : Except TagError State :=
  match s.tags.find? fun tag => tag.id = input.tagId with
  | none => .error .notFound
  | some tag =>
    if tag.isPrivileged ∧ mayViewPrivileged = false then .error .forbidden
    else if ∃ version ∈ input.expectedTagVersion, tag.version ≠ version then .error .conflict
    else
      let requestedIds := (s.items.map ItemRows.id).filter (· ∈ input.evidenceItemIds)
      let expandedIds := expandForBehavior s.relationships requestedIds tag.familyBehavior
      let chunks := chunk bulkChunkSize expandedIds
      if input.apply then
        -- an assignment has an item
        if ∀ id ∈ expandedIds, id ∈ s.items.map ItemRows.id then
          .ok { s with
            assignments := chunks.foldl (assign tag.id) s.assignments
            queue := s.queue ++ enqueueReindex s.items expandedIds }
        else .error .failed
      else .ok { s with
        assignments := chunks.foldl (unassign tag.id) s.assignments
        queue := s.queue ++ enqueueReindex s.items expandedIds }

end Operations

/-- What can happen next. -/
inductive Event : Type where
  | create (id : JsString) (input : CreateTag)
  | update (id : JsString) (version : ℤ) (fields : UpdateTag)
  | remove (id : JsString) (force : Bool)
  | bulk (mayViewPrivileged : Bool) (input : BulkTag)
  /-- the first job in the queue is run, with the texts it gets -/
  | work (now : ℤ) (fetched : JsString → ℕ → Option JsString)

/-- `processSearchIndex` for an item. -/
def processSearchIndex (tenantId : JsString) (s : State) (now : ℤ)
    (fetched : JsString → ℕ → Option JsString) (evidenceItemId : JsString) : State :=
  match s.items.find? fun item => item.id = evidenceItemId with
  | none => s
  | some item =>
    { s with
      docs := (s.docs.filter fun doc => doc.evidenceItemId ≠ evidenceItemId) ++
        [itemDoc fetched tenantId now (s.rowsOf item)]
      items := s.items.map fun other =>
        if other.id = evidenceItemId then Convergence.markIndexed item.kind other else other }

/-- The state after an event; an operation that fails changes nothing, and is none. -/
def step (tenantId : JsString) (s : State) : Event → Option State
  | .create id input => (create s id input).toOption
  | .update id version fields => (update s id version fields).toOption
  | .remove id force => (remove s id force).toOption
  | .bulk mayViewPrivileged input => (bulk s mayViewPrivileged input).toOption
  | .work now fetched =>
    match s.queue with
    | [] => none
    | id :: queue => some (processSearchIndex tenantId { s with queue := queue } now fetched id)

/-- The event is a job. -/
def Event.IsWork : Event → Prop
  | .work _ _ => True
  | _ => False

/-! ## What is asked for -/

/-- Two documents say the same about tags. -/
structure SameTags (d e : EvidenceSearchDoc) : Prop where
  tags : ∀ tag, tag ∈ d.tags.getD [] ↔ tag ∈ e.tags.getD []
  privileged : d.privileged = e.privileged

variable (tenantId : JsString)

/-- Every document says about tags what `buildSearchDoc` makes of the rows. -/
def Agrees (s : State) : Prop :=
  ∀ doc ∈ s.docs, ∀ item ∈ s.items, item.id = doc.evidenceItemId → ∀ fetched now,
    SameTags doc (itemDoc fetched tenantId now (s.rowsOf item))

variable {Num : Type} (rt : JsRuntime Num) (engine : Engine Num)

/-- A search without privileged access returns no item with a privileged tag. -/
def Hidden (s : State) : Prop :=
  ∀ ast auth query, auth.includePrivileged = false → compile rt ast auth = .ok query →
    ∀ doc ∈ s.docs, query.matches engine (docScope doc) → ∀ item ∈ s.items,
      item.id = doc.evidenceItemId → ∀ tag ∈ s.tagsOf item.id, tag.isPrivileged = false

/-- **Tags have reached the index** once the jobs in the queue have run. -/
def Synced (s : State) : Prop :=
  ∀ works t, (∀ e ∈ works, e.IsWork) → run (step tenantId) s works = some t → t.queue = [] →
    Agrees tenantId t ∧ Hidden rt engine t

/-! ## What it takes -/

/-- A document that no job will write again is that of an item with the tag. -/
def Shown (s : State) (tagId : JsString) : Prop :=
  ∃ doc ∈ s.docs, ∃ item ∈ s.items, item.id = doc.evidenceItemId ∧ item.id ∉ s.queue ∧
    ⟨tagId, item.id⟩ ∈ s.assignments

/-- **What keeps the index up to date**: a tag that a document shows is not deleted, and of what is
indexed of it nothing is edited. -/
def Clear (s : State) : Event → Prop
  | .update id _ fields => Shown s id → ∀ tag ∈ s.tags, tag.id = id →
    evidenceTag (fields.apply tag).toTagRow = evidenceTag tag.toTagRow
  | .remove id _ => ¬ Shown s id
  | _ => True

instance (s : State) (tagId : JsString) : Decidable (Shown s tagId) := by
  unfold Shown
  infer_instance

instance (s : State) (e : Event) : Decidable (Clear s e) := by
  cases e <;> unfold Clear <;> infer_instance

/-! ## What the rows say -/

/-- The constraints of the database. -/
structure Sound (s : State) : Prop where
  tags : ∀ tag ∈ s.tags, ∀ other ∈ s.tags, tag.id = other.id → tag = other
  items : ∀ item ∈ s.items, ∀ other ∈ s.items, item.id = other.id → item = other
  assigned : ∀ a ∈ s.assignments, ∃ tag ∈ s.tags, tag.id = a.tagId

/-- The rows say that an item has a tag. -/
def Carries (s : State) (evidenceItemId : JsString) (tag : EvidenceTag) : Prop :=
  ∃ row ∈ s.tags, ⟨row.id, evidenceItemId⟩ ∈ s.assignments ∧ evidenceTag row.toTagRow = tag

/-- A document says what the rows say. -/
structure Current (s : State) (doc : EvidenceSearchDoc) : Prop where
  tags : ∀ tag, tag ∈ doc.tags.getD [] ↔ Carries s doc.evidenceItemId tag
  privileged : doc.privileged ↔ ∃ tag, Carries s doc.evidenceItemId tag ∧ tag.privileged

/-- Every document that no job will write again says what the rows say. -/
def Fresh (s : State) : Prop :=
  ∀ doc ∈ s.docs, (∃ item ∈ s.items, item.id = doc.evidenceItemId) →
    doc.evidenceItemId ∈ s.queue ∨ Current s doc

section Rows

variable {s s' : State}

theorem mem_tagsOf (hs : Sound s) {evidenceItemId : JsString} {row : TagRow} :
    row ∈ s.tagsOf evidenceItemId ↔
      ∃ tag ∈ s.tags, ⟨tag.id, evidenceItemId⟩ ∈ s.assignments ∧ tag.toTagRow = row := by
  simp only [State.tagsOf, List.mem_filterMap, List.mem_filter, decide_eq_true_eq,
    Option.map_eq_some_iff]
  refine ⟨?_, ?_⟩
  · rintro ⟨a, ⟨ha, rfl⟩, tag, hfind, rfl⟩
    have hid : tag.id = a.tagId := by
      simpa only [decide_eq_true_eq] using List.find?_some hfind
    refine ⟨tag, List.mem_of_find?_eq_some hfind, ?_, rfl⟩
    rw [hid]
    exact ha
  · rintro ⟨tag, htag, ha, rfl⟩
    refine ⟨_, ⟨ha, rfl⟩, tag, ?_, rfl⟩
    obtain ⟨found, hfound⟩ : ∃ found, s.tags.find? (fun other => other.id = tag.id) = some found :=
      Option.isSome_iff_exists.mp (List.find?_isSome.mpr ⟨tag, htag, decide_eq_true rfl⟩)
    have hid : found.id = tag.id := by
      simpa only [decide_eq_true_eq] using List.find?_some hfound
    rw [hfound, hs.tags found (List.mem_of_find?_eq_some hfound) tag htag hid]

theorem carries_iff (hs : Sound s) {evidenceItemId : JsString} {tag : EvidenceTag} :
    Carries s evidenceItemId tag ↔ ∃ row ∈ s.tagsOf evidenceItemId, evidenceTag row = tag := by
  simp only [mem_tagsOf hs]
  refine ⟨?_, ?_⟩
  · rintro ⟨row, hrow, ha, rfl⟩
    exact ⟨_, ⟨row, hrow, ha, rfl⟩, rfl⟩
  · rintro ⟨_, ⟨row, hrow, ha, rfl⟩, rfl⟩
    exact ⟨row, hrow, ha, rfl⟩

/-- What `buildSearchDoc` makes of the rows says what they say. -/
theorem current_itemDoc (hs : Sound s) (item : ItemRows)
    (fetched : JsString → ℕ → Option JsString) (now : ℤ) :
    Current s (itemDoc fetched tenantId now (s.rowsOf item)) where
  tags tag := by
    have htags : (itemDoc fetched tenantId now (s.rowsOf item)).tags =
        ifAny ((s.tagsOf item.id).map evidenceTag) := rfl
    rw [htags, getD_ifAny, List.mem_map]
    exact (carries_iff hs).symm
  privileged := by
    have hprivileged : (itemDoc fetched tenantId now (s.rowsOf item)).privileged =
        ((s.tagsOf item.id).map evidenceTag).any EvidenceTag.privileged := rfl
    rw [hprivileged, List.any_eq_true]
    refine exists_congr fun tag => and_congr_left fun _ => ?_
    rw [List.mem_map]
    exact (carries_iff hs).symm

variable {tenantId}

/-- A document says what `buildSearchDoc` makes of the rows exactly if it says what they say. -/
theorem sameTags_iff (hs : Sound s) {doc : EvidenceSearchDoc} {item : ItemRows}
    (hid : item.id = doc.evidenceItemId) (fetched : JsString → ℕ → Option JsString) (now : ℤ) :
    SameTags doc (itemDoc fetched tenantId now (s.rowsOf item)) ↔ Current s doc := by
  have hmade := current_itemDoc tenantId hs item fetched now
  have hmadeId : (itemDoc fetched tenantId now (s.rowsOf item)).evidenceItemId =
      doc.evidenceItemId := hid
  refine ⟨?_, ?_⟩
  · rintro ⟨htags, hprivileged⟩
    refine ⟨fun tag => ?_, ?_⟩
    · rw [htags tag, hmade.tags tag, hmadeId]
    · rw [hprivileged, hmade.privileged, hmadeId]
  · rintro ⟨htags, hprivileged⟩
    refine ⟨fun tag => ?_, Bool.eq_iff_iff.mpr ?_⟩
    · rw [htags tag, hmade.tags tag, hmadeId]
    · rw [hprivileged, hmade.privileged, hmadeId]

theorem agrees_iff (hs : Sound s) : Agrees tenantId s ↔
    ∀ doc ∈ s.docs, (∃ item ∈ s.items, item.id = doc.evidenceItemId) → Current s doc := by
  refine ⟨?_, ?_⟩
  · rintro h doc hdoc ⟨item, hitem, hid⟩
    exact (sameTags_iff hs hid (fun _ _ => none) 0).mp (h doc hdoc item hitem hid _ _)
  · intro h doc hdoc item hitem hid fetched now
    exact (sameTags_iff hs hid fetched now).mpr (h doc hdoc ⟨item, hitem, hid⟩)

variable {rt engine}

/-- Only the flag is at its path. -/
theorem values_privileged {Num : Type} (doc : EvidenceSearchDoc) :
    (docScope doc : Scope Num).values (js "privileged") = [.bool doc.privileged] := by
  have htexts : js "privileged" ∉ textPaths := by
    simp only [textPaths, js_eq_asciiUnits]
    decide +kernel
  rw [← map_fst_texts doc] at htexts
  change valuesUnder doc.texts doc.flags (js "privileged") = _
  rw [valuesUnder, under_eq_nil htexts]
  rfl

/-- What the index says of privilege is what the filter of a search goes by. -/
theorem Agrees.hidden (hs : Sound s) (h : Agrees tenantId s) : Hidden rt engine s := by
  intro ast auth query haccess hquery doc hdoc hmatches item hitem hid tag htag
  have hcurrent := (agrees_iff hs).mp h doc hdoc ⟨item, hitem, hid⟩
  rw [compile, wrapWithAuthorization] at hquery
  split at hquery
  · cases hquery
  · cases hquery
    obtain ⟨hfilter, -⟩ := matches_filtered.mp hmatches
    have hmem : Dsl.term (js "privileged") (.bool false) ∈
        (authorizationFilter auth : List (Dsl Num)) := by
      refine List.mem_append_right _ ?_
      rw [haccess]
      exact List.mem_singleton_self _
    have hterm := hfilter _ hmem
    rw [Dsl.matches, engine.term_exact _ (by decide)] at hterm
    rw [values_privileged, List.mem_singleton, FieldValue.bool.injEq] at hterm
    by_contra hprivileged
    have hcarries : Carries s doc.evidenceItemId (evidenceTag tag) :=
      (carries_iff hs).mpr ⟨tag, hid ▸ htag, rfl⟩
    have hshown := hcurrent.privileged.mpr ⟨_, hcarries, Bool.of_not_eq_false hprivileged⟩
    rw [← hterm] at hshown
    cases hshown

theorem Current.congr {doc : EvidenceSearchDoc} (h : Current s doc)
    (hsame : ∀ tag, Carries s' doc.evidenceItemId tag ↔ Carries s doc.evidenceItemId tag) :
    Current s' doc where
  tags tag := (h.tags tag).trans (hsame tag).symm
  privileged :=
    h.privileged.trans (exists_congr fun tag => and_congr_left fun _ => (hsame tag).symm)

end Rows

/-! ## What the operations change -/

section Operations

variable {s s' : State} {tenantId : JsString}

/-- A new tag has no assignments. -/
theorem create_spec (hs : Sound s) {id : JsString} {input : CreateTag}
    (h : create s id input = .ok s') : Sound s' ∧ (Fresh s → Fresh s') := by
  rw [create] at h
  split at h
  · cases h
  split at h
  · cases h
  next hid =>
    cases h
    have hid : ∀ tag ∈ s.tags, tag.id ≠ id := by
      simpa only [List.any_eq_true, decide_eq_true_eq, not_exists, not_and] using hid
    refine ⟨?_, ?_⟩
    · refine ⟨fun tag htag other hother heq => ?_, hs.items, fun a ha => ?_⟩
      · rcases List.mem_append.mp htag with htag | htag <;>
          rcases List.mem_append.mp hother with hother | hother
        · exact hs.tags tag htag other hother heq
        · rw [List.mem_singleton.mp hother] at heq
          exact absurd heq (hid tag htag)
        · rw [List.mem_singleton.mp htag] at heq
          exact absurd heq.symm (hid other hother)
        · rw [List.mem_singleton.mp htag, List.mem_singleton.mp hother]
      · obtain ⟨tag, htag, heq⟩ := hs.assigned a ha
        exact ⟨tag, List.mem_append_left _ htag, heq⟩
    · intro hfresh doc hdoc hitem
      refine (hfresh doc hdoc hitem).imp_right fun hcurrent => hcurrent.congr fun tag => ?_
      refine ⟨?_, ?_⟩
      · rintro ⟨row, hrow, ha, rfl⟩
        rcases List.mem_append.mp hrow with hrow | hrow
        · exact ⟨row, hrow, ha, rfl⟩
        · rw [List.mem_singleton.mp hrow] at ha
          obtain ⟨other, hother, heq⟩ := hs.assigned _ ha
          exact absurd heq (hid other hother)
      · rintro ⟨row, hrow, ha, rfl⟩
        exact ⟨row, List.mem_append_left _ hrow, ha, rfl⟩

/-- What an edit of a tag makes of a row. -/
def edited (id : JsString) (fields : UpdateTag) (tag : Tag) : Tag :=
  if tag.id = id then fields.apply tag else tag

theorem edited_id (id : JsString) (fields : UpdateTag) (tag : Tag) :
    (edited id fields tag).id = tag.id := by
  rw [edited]
  split <;> rfl

/-- An edit keeps the index up to date exactly if nothing shows the tag, or nothing of it that is
indexed is edited. -/
theorem update_spec (hs : Sound s) {id : JsString} {version : ℤ} {fields : UpdateTag}
    (h : update s id version fields = .ok s') :
    Sound s' ∧ (Fresh s → (Fresh s' ↔ Clear s (.update id version fields))) := by
  rw [update] at h
  split at h
  · cases h
  split at h
  · cases h
  split at h
  · cases h
  cases h
  have hcarries : ∀ itemId tag,
      Carries { s with tags := s.tags.map (edited id fields) } itemId tag ↔
      ∃ row ∈ s.tags, ⟨row.id, itemId⟩ ∈ s.assignments ∧
        evidenceTag (edited id fields row).toTagRow = tag := by
    intro itemId tag
    refine ⟨?_, ?_⟩
    · rintro ⟨_, hmem, ha, rfl⟩
      obtain ⟨row, hrow, rfl⟩ := List.mem_map.mp hmem
      exact ⟨row, hrow, edited_id id fields row ▸ ha, rfl⟩
    · rintro ⟨row, hrow, ha, rfl⟩
      exact ⟨_, List.mem_map_of_mem hrow, (edited_id id fields row).symm ▸ ha, rfl⟩
  refine ⟨?_, ?_⟩
  · refine ⟨fun tag htag other hother heq => ?_, hs.items, fun a ha => ?_⟩
    · obtain ⟨row, hrow, rfl⟩ := List.mem_map.mp htag
      obtain ⟨row', hrow', rfl⟩ := List.mem_map.mp hother
      have hid : row.id = row'.id :=
        (edited_id id fields row).symm.trans (heq.trans (edited_id id fields row'))
      rw [hs.tags row hrow row' hrow' hid]
    · obtain ⟨tag, htag, heq⟩ := hs.assigned a ha
      exact ⟨_, List.mem_map_of_mem htag, (edited_id id fields tag).trans heq⟩
  · intro hfresh
    refine ⟨?_, ?_⟩
    · -- a document that shows the tag has what it was before
      rintro hfresh' ⟨doc, hdoc, item, hitem, hid, hqueue, ha⟩ tag htag rfl
      rw [hid] at hqueue ha
      have hbefore := (hfresh doc hdoc ⟨item, hitem, hid⟩).resolve_left hqueue
      have hafter := (hfresh' doc hdoc ⟨item, hitem, hid⟩).resolve_left hqueue
      have hmem := (hbefore.tags _).mpr ⟨tag, htag, ha, rfl⟩
      obtain ⟨row, hrow, -, heq⟩ := (hcarries _ _).mp ((hafter.tags _).mp hmem)
      have hrowId : row.id = tag.id :=
        (edited_id tag.id fields row).symm.trans (congrArg EvidenceTag.id heq)
      rw [hs.tags row hrow tag htag hrowId, edited, if_pos rfl] at heq
      exact heq
    · intro hclear doc hdoc hitem
      by_cases hqueue : doc.evidenceItemId ∈ s.queue
      · exact .inl hqueue
      · have hbefore := (hfresh doc hdoc hitem).resolve_left hqueue
        refine .inr (hbefore.congr fun tag => (hcarries _ _).trans ?_)
        refine exists_congr fun row => and_congr_right fun hrow => and_congr_right fun ha => ?_
        rw [edited]
        split
        next hid =>
          obtain ⟨item, hitem, hitemId⟩ := hitem
          have hshown : Shown s id :=
            ⟨doc, hdoc, item, hitem, hitemId, hitemId ▸ hqueue, hitemId ▸ hid ▸ ha⟩
          rw [hclear hshown row hrow hid]
        next => rfl

/-- A deletion keeps it up to date exactly if nothing shows the tag. -/
theorem remove_spec (hs : Sound s) {id : JsString} {force : Bool}
    (h : remove s id force = .ok s') :
    Sound s' ∧ (Fresh s → (Fresh s' ↔ Clear s (.remove id force))) := by
  rw [remove] at h
  split at h
  next hexisting =>
    dsimp only at h
    split at h
    · cases h
    cases h
    obtain ⟨tag, htag, htagId⟩ : ∃ tag ∈ s.tags, tag.id = id := by
      simpa only [List.any_eq_true, decide_eq_true_eq] using hexisting
    refine ⟨?_, ?_⟩
    · refine ⟨fun tag htag other hother => ?_, hs.items, fun a ha => ?_⟩
      · exact hs.tags tag (List.mem_filter.mp htag).1 other (List.mem_filter.mp hother).1
      · obtain ⟨ha, hne⟩ := List.mem_filter.mp ha
        obtain ⟨other, hother, heq⟩ := hs.assigned a ha
        exact ⟨other, List.mem_filter.mpr ⟨hother, heq ▸ hne⟩, heq⟩
    · intro hfresh
      refine ⟨?_, ?_⟩
      · -- a document that shows the tag still has it
        rintro hfresh' ⟨doc, hdoc, item, hitem, hid, hqueue, ha⟩
        rw [hid] at hqueue ha
        have hbefore := (hfresh doc hdoc ⟨item, hitem, hid⟩).resolve_left hqueue
        have hafter := (hfresh' doc hdoc ⟨item, hitem, hid⟩).resolve_left hqueue
        have hmem := (hbefore.tags _).mpr ⟨tag, htag, htagId ▸ ha, rfl⟩
        obtain ⟨row, hrow, -, heq⟩ := (hafter.tags _).mp hmem
        have hne := (List.mem_filter.mp hrow).2
        have hrowId : row.id = id := (congrArg EvidenceTag.id heq).trans htagId
        exact absurd hrowId (of_decide_eq_true hne)
      · rintro hclear doc hdoc ⟨item, hitem, hid⟩
        by_cases hqueue : doc.evidenceItemId ∈ s.queue
        · exact .inl hqueue
        · have hbefore := (hfresh doc hdoc ⟨item, hitem, hid⟩).resolve_left hqueue
          refine .inr (hbefore.congr fun tag => ?_)
          refine ⟨?_, ?_⟩
          · rintro ⟨row, hrow, ha, rfl⟩
            exact ⟨row, (List.mem_filter.mp hrow).1, (List.mem_filter.mp ha).1, rfl⟩
          · rintro ⟨row, hrow, ha, rfl⟩
            have hne : row.id ≠ id := by
              rintro rfl
              exact hclear ⟨doc, hdoc, item, hitem, hid, hid ▸ hqueue, hid ▸ ha⟩
            exact ⟨row, List.mem_filter.mpr ⟨hrow, decide_eq_true hne⟩,
              List.mem_filter.mpr ⟨ha, decide_eq_true hne⟩, rfl⟩
  next => cases h

theorem mem_enqueueReindex {items : List ItemRows} {ids : List JsString} {id : JsString} :
    id ∈ enqueueReindex items ids ↔ (∃ item ∈ items, item.id = id) ∧ id ∈ ids := by
  rw [enqueueReindex, Production.chunk_flatten (by decide), List.mem_flatMap]
  simp only [List.mem_filter, List.mem_map, decide_eq_true_eq]
  refine ⟨?_, ?_⟩
  · rintro ⟨batch, hbatch, hitem, hid⟩
    exact ⟨hitem, mem_distinct.mp (familyBatches.mem_iff.mp ⟨batch, hbatch, hid⟩)⟩
  · rintro ⟨hitem, hid⟩
    obtain ⟨batch, hbatch, hid⟩ := familyBatches.mem_iff.mpr (mem_distinct.mpr hid)
    exact ⟨batch, hbatch, hitem, hid⟩

theorem mem_foldl_assign {tagId : JsString} {chunks : List (List JsString)}
    {assignments : List TagAssignment} {a : TagAssignment} :
    a ∈ chunks.foldl (assign tagId) assignments ↔
      a ∈ assignments ∨ a.tagId = tagId ∧ ∃ ids ∈ chunks, a.evidenceItemId ∈ ids := by
  induction chunks generalizing assignments with
  | nil => simp
  | cons ids chunks ih =>
    rw [List.foldl_cons, ih, assign, mem_addAll, List.mem_map, or_assoc]
    refine or_congr_right ?_
    refine ⟨?_, ?_⟩
    · rintro (⟨id, hid, rfl⟩ | ⟨htag, ids', hids', hid⟩)
      · exact ⟨rfl, ids, List.mem_cons_self, hid⟩
      · exact ⟨htag, ids', List.mem_cons_of_mem _ hids', hid⟩
    · rintro ⟨rfl, ids', hids', hid⟩
      rcases List.mem_cons.mp hids' with rfl | hids'
      · exact .inl ⟨_, hid, rfl⟩
      · exact .inr ⟨rfl, ids', hids', hid⟩

theorem mem_foldl_unassign {tagId : JsString} {chunks : List (List JsString)}
    {assignments : List TagAssignment} {a : TagAssignment} :
    a ∈ chunks.foldl (unassign tagId) assignments ↔
      a ∈ assignments ∧ ¬ (a.tagId = tagId ∧ ∃ ids ∈ chunks, a.evidenceItemId ∈ ids) := by
  induction chunks generalizing assignments with
  | nil => simp
  | cons ids chunks ih =>
    rw [List.foldl_cons, ih, unassign, List.mem_filter, decide_eq_true_eq, and_assoc, ← not_or,
      ← and_or_left]
    simp only [List.mem_cons, exists_eq_or_imp]

/-- Assignments of other items, and of existing tags: what `bulk` leaves up to date. -/
theorem bulk_fresh (hfresh : Fresh s) {assignments : List TagAssignment} {ids : List JsString}
    (hothers : ∀ a : TagAssignment, a.evidenceItemId ∉ ids →
      (a ∈ assignments ↔ a ∈ s.assignments)) :
    Fresh { s with
      assignments := assignments
      queue := s.queue ++ enqueueReindex s.items ids } := by
  intro doc hdoc hitem
  by_cases hids : doc.evidenceItemId ∈ ids
  · exact .inl (List.mem_append_right _ (mem_enqueueReindex.mpr ⟨hitem, hids⟩))
  · refine (hfresh doc hdoc hitem).imp (List.mem_append_left _) fun hcurrent => ?_
    refine hcurrent.congr fun tag => exists_congr fun row => and_congr_right fun _ => ?_
    exact and_congr_left fun _ => hothers _ hids

/-- **Every item whose assignments change is indexed again.** -/
theorem bulk_spec (hs : Sound s) {mayViewPrivileged : Bool} {input : BulkTag}
    (h : bulk s mayViewPrivileged input = .ok s') : Sound s' ∧ (Fresh s → Fresh s') := by
  rw [bulk] at h
  split at h
  · cases h
  next tag hfind =>
    have htag := List.mem_of_find?_eq_some hfind
    split at h
    · cases h
    split at h
    · cases h
    dsimp only at h
    have hchunks : ∀ (ids : List JsString) (id : JsString),
        (∃ batch ∈ chunk bulkChunkSize ids, id ∈ batch) ↔ id ∈ ids :=
      fun ids id => Production.mem_chunk (by decide)
    split at h
    · split at h
      · cases h
        refine ⟨⟨hs.tags, hs.items, fun a ha => ?_⟩, fun hfresh => bulk_fresh hfresh fun a ha => ?_⟩
        · rcases mem_foldl_assign.mp ha with ha | ⟨heq, -⟩
          · exact hs.assigned a ha
          · exact ⟨tag, htag, heq.symm⟩
        · rw [mem_foldl_assign, hchunks]
          exact or_iff_left fun hassigned => ha hassigned.2
      · cases h
    · cases h
      refine ⟨⟨hs.tags, hs.items, fun a ha => ?_⟩, fun hfresh => bulk_fresh hfresh fun a ha => ?_⟩
      · exact hs.assigned a (mem_foldl_unassign.mp ha).1
      · rw [mem_foldl_unassign, hchunks]
        exact and_iff_left fun hassigned => ha hassigned.2

/-- What `processSearchIndex` does for an item. -/
structure Indexed (s t : State) (id : JsString) : Prop where
  tags : t.tags = s.tags
  assignments : t.assignments = s.assignments
  queue : t.queue = s.queue
  items : ∀ item ∈ s.items, ∃ other ∈ t.items, other.id = item.id
  known : ∀ other ∈ t.items, ∃ item ∈ s.items, item.id = other.id
  unique : ∀ item ∈ t.items, ∀ other ∈ t.items, item.id = other.id → item = other
  others : ∀ doc ∈ s.docs, doc.evidenceItemId ≠ id → doc ∈ t.docs
  docs : ∀ doc ∈ t.docs, Current s doc ∨
    doc ∈ s.docs ∧ (doc.evidenceItemId = id → ¬ ∃ item ∈ s.items, item.id = id)

variable (tenantId) in
theorem indexed_processSearchIndex (hs : Sound s) (now : ℤ)
    (fetched : JsString → ℕ → Option JsString) (id : JsString) :
    Indexed s (processSearchIndex tenantId s now fetched id) id := by
  rw [processSearchIndex]
  split
  next hfind =>
    refine ⟨rfl, rfl, rfl, fun item hitem => ⟨item, hitem, rfl⟩,
      fun item hitem => ⟨item, hitem, rfl⟩,
      hs.items, fun doc hdoc _ => hdoc, fun doc hdoc => .inr ⟨hdoc, ?_⟩⟩
    rintro - ⟨item, hitem, hid⟩
    exact List.find?_eq_none.mp hfind item hitem (decide_eq_true hid)
  next item hfind =>
    have hid : ∀ other : ItemRows, (if other.id = id then Convergence.markIndexed item.kind other
        else other).id = other.id := by
      intro other
      split
      · rw [Convergence.markIndexed]
        split <;> rfl
      · rfl
    refine ⟨rfl, rfl, rfl, fun other hother => ⟨_, List.mem_map_of_mem hother, hid other⟩,
      fun other hother => ?_, fun one hone other hother heq => ?_, fun doc hdoc hne => ?_,
      fun doc hdoc => ?_⟩
    · obtain ⟨row, hrow, rfl⟩ := List.mem_map.mp hother
      exact ⟨row, hrow, (hid row).symm⟩
    · obtain ⟨row, hrow, rfl⟩ := List.mem_map.mp hone
      obtain ⟨row', hrow', rfl⟩ := List.mem_map.mp hother
      rw [hid, hid] at heq
      rw [hs.items row hrow row' hrow' heq]
    · exact List.mem_append_left _ (List.mem_filter.mpr ⟨hdoc, decide_eq_true hne⟩)
    · rcases List.mem_append.mp hdoc with hdoc | hdoc
      · obtain ⟨hdoc, hne⟩ := List.mem_filter.mp hdoc
        exact .inr ⟨hdoc, fun heq => absurd heq (of_decide_eq_true hne)⟩
      · rw [List.mem_singleton.mp hdoc]
        exact .inl (current_itemDoc tenantId hs item fetched now)

theorem Indexed.sound {t : State} {id : JsString} (h : Indexed s t id) (hs : Sound s) :
    Sound t where
  tags := h.tags ▸ hs.tags
  items := h.unique
  assigned := by
    rw [h.assignments, h.tags]
    exact hs.assigned

theorem Indexed.current {t : State} {id : JsString} (h : Indexed s t id) {doc : EvidenceSearchDoc} :
    Current t doc ↔ Current s doc := by
  have hcarries : ∀ itemId tag, Carries t itemId tag ↔ Carries s itemId tag := by
    intro itemId tag
    rw [Carries, h.tags, h.assignments]
    exact Iff.rfl
  exact ⟨fun hcurrent => hcurrent.congr fun tag => (hcarries _ tag).symm,
    fun hcurrent => hcurrent.congr (hcarries _)⟩

/-- **A job leaves the document of its item up to date**, and all others as they were. -/
theorem work_spec (hs : Sound s) {id : JsString} {queue : List JsString}
    (hqueue : s.queue = id :: queue) (now : ℤ) (fetched : JsString → ℕ → Option JsString) :
    Sound (processSearchIndex tenantId { s with queue := queue } now fetched id) ∧
      (Fresh s → Fresh (processSearchIndex tenantId { s with queue := queue } now fetched id)) := by
  have hs' : Sound { s with queue := queue } := ⟨hs.tags, hs.items, hs.assigned⟩
  have h := indexed_processSearchIndex tenantId hs' now fetched id
  refine ⟨h.sound hs', fun hfresh doc hdoc ⟨item, hitem, hid⟩ => ?_⟩
  rw [h.queue, h.current]
  rcases h.docs doc hdoc with hcurrent | ⟨hdoc, hnone⟩
  · exact .inr hcurrent
  · obtain ⟨row, hrow, hrowId⟩ := h.known item hitem
    rcases hfresh doc hdoc ⟨row, hrow, hrowId.trans hid⟩ with hmem | hcurrent
    · rw [hqueue] at hmem
      rcases List.mem_cons.mp hmem with heq | hmem
      · exact absurd ⟨row, hrow, hrowId.trans (hid.trans heq)⟩ (hnone heq)
      · exact .inl hmem
    · exact .inr ⟨hcurrent.tags, hcurrent.privileged⟩

/-- **What an event leaves up to date.** -/
theorem step_spec {e : Event} (hs : Sound s) (h : step tenantId s e = some s') :
    Sound s' ∧ (Fresh s → (Fresh s' ↔ Clear s e)) := by
  have hok : ∀ {x : Except TagError State}, x.toOption = some s' → x = .ok s' := by
    rintro (_ | _) hx <;> cases hx
    rfl
  cases e with
  | create id input =>
    obtain ⟨hsound, hfresh⟩ := create_spec hs (hok h)
    exact ⟨hsound, fun hs => iff_of_true (hfresh hs) trivial⟩
  | update id version fields => exact update_spec hs (hok h)
  | remove id force => exact remove_spec hs (hok h)
  | bulk mayViewPrivileged input =>
    obtain ⟨hsound, hfresh⟩ := bulk_spec hs (hok h)
    exact ⟨hsound, fun hs => iff_of_true (hfresh hs) trivial⟩
  | work now fetched =>
    rw [step] at h
    split at h
    next => cases h
    next id queue hqueue =>
      cases h
      obtain ⟨hsound, hfresh⟩ := work_spec hs hqueue now fetched
      exact ⟨hsound, fun hs => iff_of_true (hfresh hs) trivial⟩

end Operations

/-! ## Runs -/

section Runs

variable {tenantId rt engine} {s t : State}

variable (tenantId) in
/-- The jobs in the queue can be run. They leave alone the documents of all other items. -/
theorem exists_drained (hs : Sound s) : ∃ works u, (∀ e ∈ works, e.IsWork) ∧
    run (step tenantId) s works = some u ∧ u.queue = [] ∧ Sound u ∧
    (∀ doc ∈ s.docs, doc.evidenceItemId ∉ s.queue → doc ∈ u.docs) ∧
    (∀ item ∈ s.items, ∃ other ∈ u.items, other.id = item.id) ∧
    ∀ doc, Current u doc ↔ Current s doc := by
  obtain ⟨queue, hqueue⟩ : ∃ queue, s.queue = queue := ⟨_, rfl⟩
  induction queue generalizing s with
  | nil =>
    exact ⟨[], s, fun _ h => (List.not_mem_nil h).elim, rfl, hqueue, hs, fun doc hdoc _ => hdoc,
      fun item hitem => ⟨item, hitem, rfl⟩, fun doc => Iff.rfl⟩
  | cons id queue ih =>
    have hs' : Sound { s with queue := queue } := ⟨hs.tags, hs.items, hs.assigned⟩
    have h := indexed_processSearchIndex tenantId hs' 0 (fun _ _ => none) id
    obtain ⟨works, u, hworks, hrun, hempty, hsound, hdocs, hitems, hcurrent⟩ :=
      ih (h.sound hs') h.queue
    have hstep : step tenantId s (.work 0 fun _ _ => none) =
        some (processSearchIndex tenantId { s with queue := queue } 0 (fun _ _ => none) id) := by
      rw [step, hqueue]
    refine ⟨.work 0 (fun _ _ => none) :: works, u, ?_, run_cons.mpr ⟨_, hstep, hrun⟩, hempty,
      hsound,
      fun doc hdoc hmem => ?_, fun item hitem => ?_, fun doc => ?_⟩
    · exact List.forall_mem_cons.mpr ⟨trivial, hworks⟩
    · rw [hqueue, List.mem_cons, not_or] at hmem
      exact hdocs doc (h.others doc hdoc hmem.1) (h.queue ▸ hmem.2)
    · obtain ⟨other, hother, heq⟩ := h.items item hitem
      obtain ⟨last, hlast, heq'⟩ := hitems other hother
      exact ⟨last, hlast, heq'.trans heq⟩
    · refine ((hcurrent doc).trans h.current).trans ?_
      exact ⟨fun hc => ⟨hc.tags, hc.privileged⟩, fun hc => ⟨hc.tags, hc.privileged⟩⟩

/-- The index is up to date once the jobs have run exactly if all other documents are now. -/
theorem synced_iff (hs : Sound s) : Synced tenantId rt engine s ↔ Fresh s := by
  refine ⟨?_, ?_⟩
  · rintro h doc hdoc ⟨item, hitem, hid⟩
    by_cases hqueue : doc.evidenceItemId ∈ s.queue
    · exact .inl hqueue
    · obtain ⟨works, u, hworks, hrun, hempty, hsound, hdocs, hitems, hcurrent⟩ :=
        exists_drained tenantId hs
      obtain ⟨other, hother, heq⟩ := hitems item hitem
      have hagrees := (agrees_iff hsound).mp (h works u hworks hrun hempty).1
      have hdoc' := hagrees doc (hdocs doc hdoc hqueue) ⟨other, hother, heq.trans hid⟩
      exact .inr ((hcurrent doc).mp hdoc')
  · intro hfresh works u hworks hrun hempty
    have hwork : ∀ s e s', Sound s ∧ Fresh s → Event.IsWork e → step tenantId s e = some s' →
        Sound s' ∧ Fresh s' := by
      rintro s e s' ⟨hs, hfresh⟩ hwork hstep
      obtain ⟨hs', hfresh'⟩ := step_spec hs hstep
      refine ⟨hs', (hfresh' hfresh).mpr ?_⟩
      cases e with
      | work now fetched => trivial
      | _ => exact hwork.elim
    have hu : Sound u ∧ Fresh u := Always.run_induction hwork ⟨hs, hfresh⟩
      (Always.of_forall_mem fun e he _ => hworks e he) hrun
    have hagrees : Agrees tenantId u := by
      refine (agrees_iff hu.1).mpr fun doc hdoc hitem => (hu.2 doc hdoc hitem).resolve_left ?_
      rw [hempty]
      exact List.not_mem_nil
    exact ⟨hagrees, hagrees.hidden hu.1⟩

/-- **Tags reach the index after every operation of a run** exactly if each operation is clear. -/
theorem throughout_synced_iff (hs : Sound s) (hagrees : Agrees tenantId s) {es : List Event}
    (h : run (step tenantId) s es = some t) :
    Throughout (step tenantId) (Synced tenantId rt engine) s es ↔
      Always (step tenantId) Clear s es := by
  refine throughout_iff_always (fun s e s' hs hstep => (step_spec hs hstep).1) ?_ hs ?_ h
  · intro s e s' hs hsynced hstep
    obtain ⟨hs', hfresh⟩ := step_spec hs hstep
    rw [synced_iff hs', hfresh ((synced_iff hs).mp hsynced)]
  · refine (synced_iff hs).mpr fun doc hdoc hitem => .inr ?_
    exact (agrees_iff hs).mp hagrees doc hdoc hitem

end Runs

/-! ## Edits that do not reach the index -/

/-- A tenant with one item, its document, and a tag that is privileged or not. -/
def tagged (isPrivileged : Bool) : State :=
  let item := { Convergence.waitingFile with tags := [] }
  let rows : State :=
    { tags := [⟨⟨js "t1", js "Counsel", isPrivileged, false⟩, .none, 1⟩]
      items := [item]
      relationships := []
      assignments := [⟨js "t1", js "e1"⟩]
      docs := []
      queue := [] }
  { rows with docs := [itemDoc (fun _ _ => none) (js "acme") 0 (rows.rowsOf item)] }

theorem tagged_sound (isPrivileged : Bool) : Sound (tagged isPrivileged) where
  tags tag htag other hother _ := by
    rw [List.mem_singleton.mp htag, List.mem_singleton.mp hother]
  items item hitem other hother _ := by
    rw [List.mem_singleton.mp hitem, List.mem_singleton.mp hother]
  assigned a ha := by
    rw [List.mem_singleton.mp ha]
    exact ⟨_, List.mem_singleton_self _, rfl⟩

theorem tagged_agrees (isPrivileged : Bool) : Agrees (js "acme") (tagged isPrivileged) := by
  intro doc hdoc item hitem _ fetched now
  rw [List.mem_singleton.mp hdoc, List.mem_singleton.mp hitem]
  exact ⟨fun _ => Iff.rfl, rfl⟩

/-- The tag is made privileged. -/
def privilege : Event := .update (js "t1") 1 ⟨none, some true, none, none⟩

/-- A caller without privileged access. -/
def outsider : AuthContext := ⟨js "acme", none, false, none⟩

/-- A tag made privileged after it was applied is not privileged in the index, where a search
without privileged access finds it; and one that is deleted is still there. -/
theorem not_synced :
    (∃ t, run (step (js "acme")) (tagged false) [privilege] = some t ∧ t.queue = [] ∧
      ¬ Agrees (js "acme") t ∧ ¬ Hidden asciiRuntime exactEngine t) ∧
    ∃ t, run (step (js "acme")) (tagged true) [.remove (js "t1") true] = some t ∧ t.queue = [] ∧
      ¬ Agrees (js "acme") t := by
  refine ⟨⟨_, rfl, rfl, fun h => ?_, fun h => ?_⟩, ⟨_, rfl, rfl, fun h => ?_⟩⟩
  · have hdoc := h _ List.mem_cons_self _ List.mem_cons_self rfl (fun _ _ => none) 0
    exact absurd hdoc.privileged (by decide)
  · have hfound : ∀ doc ∈ (tagged false).docs,
        (Dsl.bool (authorizationFilter outsider) [.matchAll] [] [] none).matches exactEngine
          (docScope doc) := by
      decide +kernel
    have hprivileged := h ⟨.matchAll⟩ outsider _ rfl rfl _ List.mem_cons_self
      (hfound _ List.mem_cons_self) _ List.mem_cons_self rfl _ List.mem_cons_self
    cases hprivileged
  · have hdoc := h _ List.mem_cons_self _ List.mem_cons_self rfl (fun _ _ => none) 0
    exact absurd hdoc.privileged (by decide)

/-- A tag is made privileged while the item waits to be indexed again. -/
theorem synced_reapplied :
    Throughout (step (js "acme")) (Synced (js "acme") asciiRuntime exactEngine) (tagged false)
        [.bulk true ⟨js "t1", [js "e1"], true, some 1⟩, privilege, .work 7 fun _ _ => none] ↔
      Always (step (js "acme")) Clear (tagged false)
        [.bulk true ⟨js "t1", [js "e1"], true, some 1⟩, privilege, .work 7 fun _ _ => none] :=
  throughout_synced_iff (tagged_sound false) (tagged_agrees false) rfl

end AegCloudDfir.Search.Tagging
