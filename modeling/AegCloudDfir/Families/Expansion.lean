import AegCloudDfir.Export.Items
import AegCloudDfir.Lib.Neighbours
import AegCloudDfir.Production.Selection

/-!
# The two expansions by families

`expandFamilies` is written twice: in `apps/worker/src/processors/export-run.ts`, for exports,
and in `apps/api/src/common/families.ts`, for cases, selections and productions. The one for the
API takes what is directly related to a selection, in both directions. The one of the worker
takes that, and all children of every parent that came up. Both read the relationships batch by
batch, and nothing is assumed about the batches but that they are the identifiers.
-/

namespace AegCloudDfir.Families

open Production (Relationship isFamilyRelationshipKind)
open Neighbours (around Near)

/-! ## Batches -/

/-- A way to divide identifiers into batches, whatever their sizes and their order. -/
structure Batching (Id : Type) where
  batches : List Id → List (List Id)
  perm : ∀ ids, (batches ids).flatten.Perm ids

/-- `chunkIds` and `chunk` -/
def Batching.ofSize {Id : Type} (size : ℕ) (h : 0 < size) : Batching Id where
  batches := Production.chunk size
  perm ids := by rw [Production.chunk_flatten h]

theorem Batching.mem_iff {Id : Type} (b : Batching Id) {ids : List Id} {id : Id} :
    (∃ batch ∈ b.batches ids, id ∈ batch) ↔ id ∈ ids := by
  rw [← List.mem_flatten, (b.perm ids).mem_iff]

section Expansions

variable {Id : Type} [DecidableEq Id]

/-- `queryInChunks`, for a query that asks for the rows with something in a batch. -/
def queryInChunks (b : Batching Id) (ids : List Id) (rows : List (Relationship Id))
    (touches : Relationship Id → Id → Bool) : List (Relationship Id) :=
  (b.batches ids).flatMap fun batch =>
    rows.filter fun rel => isFamilyRelationshipKind rel.kind ∧ batch.any (touches rel)

/-- A row names an identifier, as parent or as child. -/
def names (rel : Relationship Id) (id : Id) : Bool := rel.parentId = id ∨ rel.childId = id

/-- A row is about the children of an identifier. -/
def isParent (rel : Relationship Id) (id : Id) : Bool := rel.parentId = id

/-- `expandFamilies` of the worker; `b` and `b'` are the batches of the two queries. -/
def workerExpandFamilies (b b' : Batching Id) (rows : List (Relationship Id)) (ids : List Id) :
    List Id :=
  if ids.length = 0 then ids
  else
    let relations := queryInChunks b ids rows names
    let expanded := addAll (distinct ids)
      (relations.flatMap fun rel => [rel.parentId, rel.childId])
    let parentIds := distinct (relations.map Relationship.parentId)
    let siblings := queryInChunks b' parentIds rows isParent
    addAll expanded (siblings.map Relationship.childId)

/-- `expandFamilies` of the API. -/
def apiExpandFamilies (b : Batching Id) (rows : List (Relationship Id)) (ids : List Id) :
    List Id :=
  if ids.length = 0 then []
  else
    addAll (distinct ids)
      ((queryInChunks b ids rows names).flatMap fun rel => [rel.parentId, rel.childId])

/-- Two identifiers are related, one as the parent of the other. -/
def Linked (rows : List (Relationship Id)) (a b : Id) : Prop :=
  ∃ rel ∈ rows, isFamilyRelationshipKind rel.kind ∧
    (rel.parentId = a ∧ rel.childId = b ∨ rel.parentId = b ∧ rel.childId = a)

/-- What the two say about a selection. -/
structure Agree (b b' b'' : Batching Id) (rows : List (Relationship Id)) (ids : List Id) :
    Prop where
  same : ∀ id, id ∈ workerExpandFamilies b b' rows ids ↔ id ∈ apiExpandFamilies b'' rows ids
  contains : ids ⊆ workerExpandFamilies b b' rows ids
  /-- expanding again adds nothing -/
  workerClosed : workerExpandFamilies b b' rows (workerExpandFamilies b b' rows ids) ⊆
    workerExpandFamilies b b' rows ids
  apiClosed : apiExpandFamilies b'' rows (apiExpandFamilies b'' rows ids) ⊆
    apiExpandFamilies b'' rows ids

variable {b b' b'' : Batching Id} {rows : List (Relationship Id)} {ids : List Id} {id : Id}

omit [DecidableEq Id] in
theorem mem_queryInChunks {touches : Relationship Id → Id → Bool} {rel : Relationship Id} :
    rel ∈ queryInChunks b ids rows touches ↔
      rel ∈ rows ∧ isFamilyRelationshipKind rel.kind ∧ ∃ id ∈ ids, touches rel id := by
  simp only [queryInChunks, List.mem_flatMap, List.mem_filter, decide_eq_true_eq, List.any_eq_true]
  refine ⟨?_, ?_⟩
  · rintro ⟨batch, hbatch, hrel, hkind, id, hid, htouches⟩
    exact ⟨hrel, hkind, id, b.mem_iff.mp ⟨batch, hbatch, hid⟩, htouches⟩
  · rintro ⟨hrel, hkind, id, hid, htouches⟩
    obtain ⟨batch, hbatch, hid⟩ := b.mem_iff.mpr hid
    exact ⟨batch, hbatch, hrel, hkind, id, hid, htouches⟩

theorem names_iff {rel : Relationship Id} : names rel id ↔ rel.parentId = id ∨ rel.childId = id :=
  decide_eq_true_iff

/-- The rows that name something selected hold what is around the selection. -/
theorem mem_around_iff (b : Batching Id) : id ∈ around (Linked rows) {x | x ∈ ids} ↔
    id ∈ ids ∨ ∃ rel ∈ queryInChunks b ids rows names, rel.parentId = id ∨ rel.childId = id := by
  refine ⟨?_, ?_⟩
  · rintro (hid | ⟨a, ha, rel, hrel, hkind, ⟨rfl, rfl⟩ | ⟨rfl, rfl⟩⟩)
    · exact .inl hid
    · exact .inr ⟨rel, mem_queryInChunks.mpr ⟨hrel, hkind, _, ha, names_iff.mpr (.inl rfl)⟩,
        .inr rfl⟩
    · exact .inr ⟨rel, mem_queryInChunks.mpr ⟨hrel, hkind, _, ha, names_iff.mpr (.inr rfl)⟩,
        .inl rfl⟩
  · rintro (hid | ⟨rel, hmem, hnamed⟩)
    · exact .inl hid
    · obtain ⟨hrel, hkind, a, ha, hnames⟩ := mem_queryInChunks.mp hmem
      rcases names_iff.mp hnames with rfl | rfl
      · rcases hnamed with rfl | rfl
        · exact .inl ha
        · exact .inr ⟨_, ha, rel, hrel, hkind, .inl ⟨rfl, rfl⟩⟩
      · rcases hnamed with rfl | rfl
        · exact .inr ⟨_, ha, rel, hrel, hkind, .inr ⟨rfl, rfl⟩⟩
        · exact .inl ha

/-- **The API takes what is around the selection.** -/
theorem mem_apiExpandFamilies :
    id ∈ apiExpandFamilies b rows ids ↔ id ∈ around (Linked rows) {x | x ∈ ids} := by
  rw [apiExpandFamilies, mem_around_iff b]
  split_ifs with hnil
  · obtain rfl := List.length_eq_zero_iff.mp hnil
    simp [mem_queryInChunks]
  · simp [eq_comm]

/-- The worker takes the children of the parents as well. -/
theorem mem_workerExpandFamilies :
    id ∈ workerExpandFamilies b b' rows ids ↔ id ∈ around (Linked rows) {x | x ∈ ids} ∨
      ∃ rel ∈ queryInChunks b ids rows names, ∃ sibling ∈ rows,
        isFamilyRelationshipKind sibling.kind ∧ sibling.parentId = rel.parentId ∧
          sibling.childId = id := by
  rw [workerExpandFamilies, mem_around_iff b]
  split_ifs with hnil
  · obtain rfl := List.length_eq_zero_iff.mp hnil
    simp [mem_queryInChunks]
  · simp only [mem_addAll, mem_distinct, List.mem_flatMap, List.mem_map, mem_queryInChunks, isParent,
      decide_eq_true_eq, List.mem_cons, List.not_mem_nil, or_false]
    refine or_congr (or_congr_right ?_) ?_
    · simp only [eq_comm]
    · refine ⟨?_, ?_⟩
      · rintro ⟨sibling, ⟨hsibling, hkind, _, ⟨rel, hrel, rfl⟩, hparent⟩, rfl⟩
        exact ⟨rel, hrel, sibling, hsibling, hkind, hparent, rfl⟩
      · rintro ⟨rel, hrel, sibling, hsibling, hkind, hparent, rfl⟩
        exact ⟨sibling, ⟨hsibling, hkind, _, ⟨rel, hrel, rfl⟩, hparent⟩, rfl⟩

/-- The worker takes at least what the API takes, -/
theorem around_subset_worker (b b' : Batching Id) (rows : List (Relationship Id)) (ids : List Id) :
    around (Linked rows) {x | x ∈ ids} ⊆ {x | x ∈ workerExpandFamilies b b' rows ids} :=
  fun _ hx => mem_workerExpandFamilies.mpr (.inl hx)

/-- and at most what the API takes the second time. -/
theorem worker_subset_around (b b' : Batching Id) (rows : List (Relationship Id)) (ids : List Id) :
    {x | x ∈ workerExpandFamilies b b' rows ids} ⊆
      around (Linked rows) (around (Linked rows) {x | x ∈ ids}) := by
  intro x hx
  rcases mem_workerExpandFamilies.mp hx with hx | ⟨rel, hrel, sibling, hsibling, hkind, hparent, rfl⟩
  · exact .inl hx
  · refine .inr ⟨rel.parentId, (mem_around_iff b).mpr (.inr ⟨rel, hrel, .inl rfl⟩), sibling,
      hsibling, hkind, .inl ⟨hparent, rfl⟩⟩

/-- **The two expansions agree and are closed** exactly if nothing is two relationships away from
the selection and not one. -/
theorem agree_iff (b b' b'' : Batching Id) (rows : List (Relationship Id)) (ids : List Id) :
    Agree b b' b'' rows ids ↔ Near (Linked rows) {x | x ∈ ids} := by
  have hapi : ∀ ids : List Id, {x | x ∈ apiExpandFamilies b'' rows ids} =
      around (Linked rows) {x | x ∈ ids} := fun ids => Set.ext fun id => mem_apiExpandFamilies
  rw [← Neighbours.around_around_subset_iff]
  refine ⟨?_, ?_⟩
  · intro h
    rw [← hapi, ← hapi]
    exact h.apiClosed
  · intro hclosed
    have hnear := Neighbours.around_around_subset_iff.mp hclosed
    have hworker : {x | x ∈ workerExpandFamilies b b' rows ids} =
        around (Linked rows) {x | x ∈ ids} :=
      Neighbours.eq_around_of_near hnear (around_subset_worker b b' rows ids)
        (worker_subset_around b b' rows ids)
    -- what is around the selection is around itself
    have htwice : {x | x ∈ workerExpandFamilies b b' rows (workerExpandFamilies b b' rows ids)} ⊆
        around (Linked rows) {x | x ∈ ids} := by
      refine (worker_subset_around b b' rows _).trans ?_
      rw [hworker]
      exact (Neighbours.around_mono hclosed).trans hclosed
    refine ⟨fun id => ?_, fun id hid => ?_, ?_, ?_⟩
    · exact (Set.ext_iff.mp hworker id).trans (Set.ext_iff.mp (hapi ids) id).symm
    · exact mem_workerExpandFamilies.mpr (.inl (.inl hid))
    · intro id hid
      exact (Set.ext_iff.mp hworker id).mpr (htwice hid)
    · intro id hid
      have hid : id ∈ around (Linked rows) {x | x ∈ apiExpandFamilies b'' rows ids} :=
        mem_apiExpandFamilies.mp hid
      rw [hapi] at hid
      exact mem_apiExpandFamilies.mpr (hclosed hid)

end Expansions

/-! ## The tables they are run on -/

/-- What productions select by families is what the API takes. -/
theorem mem_production_expandFamilies {Id : Type} [LinearOrder Id] (b : Batching Id)
    (tables : Production.Tables Id) (ids : List Id) (id : Id) :
    id ∈ Production.expandFamilies tables ids ↔
      id ∈ apiExpandFamilies b tables.relationships ids := by
  rw [Production.expandFamilies, apiExpandFamilies]
  split_ifs with hnil
  · rfl
  · simp only [mem_addAll, mem_distinct, List.mem_flatMap, mem_queryInChunks, names_iff,
      Production.familyRelationships, Production.mem_rowsOf, decide_eq_true_eq]
    refine or_congr_right (exists_congr fun rel => and_congr_left fun _ => ?_)
    refine ⟨?_, ?_⟩
    · rintro ⟨hrel, a, ha, hkind, hnames⟩
      exact ⟨hrel, hkind, a, ha, hnames⟩
    · rintro ⟨hrel, hkind, a, ha, hnames⟩
      exact ⟨hrel, a, ha, hkind, hnames⟩

/-- The relationships of the items of an export. -/
def relationshipRows (tables : Export.Tables) : List (Relationship JsString) :=
  tables.items.flatMap fun item =>
    item.childRelationships.map fun rel => ⟨rel.parentId, item.id, rel.kind⟩

theorem mem_relationshipRows {tables : Export.Tables} {parent child : JsString} :
    (parent, child) ∈ Export.relationships tables isFamilyRelationshipKind ↔
      ∃ rel ∈ relationshipRows tables, isFamilyRelationshipKind rel.kind ∧
        rel.parentId = parent ∧ rel.childId = child := by
  simp only [Export.mem_relationships, relationshipRows, List.mem_flatMap, List.mem_map,
    Prod.mk.injEq]
  refine ⟨?_, ?_⟩
  · rintro ⟨item, hitem, rel, hrel, hkind, rfl, rfl⟩
    exact ⟨_, ⟨item, hitem, rel, hrel, rfl⟩, hkind, rfl, rfl⟩
  · rintro ⟨_, ⟨item, hitem, rel, hrel, rfl⟩, hkind, rfl, rfl⟩
    exact ⟨item, hitem, rel, hrel, hkind, rfl, rfl⟩

/-- What an export selects by families is what the worker takes. -/
theorem mem_export_expandFamilies (b b' : Batching JsString) (tables : Export.Tables)
    (ids : List JsString) (id : JsString) :
    id ∈ Export.expandFamilies tables ids ↔
      id ∈ workerExpandFamilies b b' (relationshipRows tables) ids := by
  have hrelated : ∀ rel : JsString × JsString,
      rel ∈ ((Production.chunk (Production.queryChunk / 2) ids).flatMap fun batch =>
        (Export.relationships tables isFamilyRelationshipKind).filter fun rel =>
          rel.1 ∈ batch ∨ rel.2 ∈ batch) ↔
      ∃ row ∈ queryInChunks b ids (relationshipRows tables) names,
        row.parentId = rel.1 ∧ row.childId = rel.2 := by
    rintro ⟨parent, child⟩
    simp only [List.mem_flatMap, List.mem_filter, decide_eq_true_eq, mem_relationshipRows,
      mem_queryInChunks, names_iff]
    refine ⟨?_, ?_⟩
    · rintro ⟨batch, hbatch, ⟨row, hrow, hkind, rfl, rfl⟩, hnamed⟩
      refine ⟨row, ⟨hrow, hkind, ?_⟩, rfl, rfl⟩
      rcases hnamed with hparent | hchild
      · exact ⟨_, (Production.mem_chunk (by decide)).mp ⟨batch, hbatch, hparent⟩, .inl rfl⟩
      · exact ⟨_, (Production.mem_chunk (by decide)).mp ⟨batch, hbatch, hchild⟩, .inr rfl⟩
    · rintro ⟨row, ⟨hrow, hkind, a, ha, hnamed⟩, rfl, rfl⟩
      obtain ⟨batch, hbatch, ha⟩ :=
        (Production.mem_chunk (show 0 < Production.queryChunk / 2 by decide)).mpr ha
      refine ⟨batch, hbatch, ⟨row, hrow, hkind, rfl, rfl⟩, ?_⟩
      rcases hnamed with rfl | rfl
      · exact .inl ha
      · exact .inr ha
  rw [mem_workerExpandFamilies, mem_around_iff b, Export.expandFamilies]
  generalize ((Production.chunk (Production.queryChunk / 2) ids).flatMap fun batch =>
    (Export.relationships tables isFamilyRelationshipKind).filter fun rel =>
      rel.1 ∈ batch ∨ rel.2 ∈ batch) = relations at hrelated
  simp only [mem_addAll]
  refine or_congr (or_congr_right ?_) ?_
  · rw [List.mem_flatMap]
    refine ⟨?_, ?_⟩
    · rintro ⟨rel, hrel, hid⟩
      obtain ⟨row, hrow, hparent, hchild⟩ := (hrelated rel).mp hrel
      refine ⟨row, hrow, ?_⟩
      rw [hparent, hchild]
      simpa [eq_comm] using hid
    · rintro ⟨row, hrow, hid⟩
      refine ⟨(row.parentId, row.childId), (hrelated _).mpr ⟨row, hrow, rfl, rfl⟩, ?_⟩
      simpa [eq_comm] using hid
  · simp only [List.mem_map, List.mem_flatMap, List.mem_filter, decide_eq_true_eq]
    refine ⟨?_, ?_⟩
    · rintro ⟨⟨parent, child⟩, ⟨batch, hbatch, hrel, hparent⟩, rfl⟩
      have hparent := (Production.mem_chunk (by decide)).mp ⟨batch, hbatch, hparent⟩
      obtain ⟨rel, hrel', heq⟩ := List.mem_map.mp (mem_distinct.mp hparent)
      obtain ⟨row, hrow, hrowParent, -⟩ := (hrelated rel).mp hrel'
      obtain ⟨sibling, hsibling, hkind, hsiblingParent, hchild⟩ := mem_relationshipRows.mp hrel
      exact ⟨row, hrow, sibling, hsibling, hkind,
        hsiblingParent.trans (heq.symm.trans hrowParent.symm), hchild⟩
    · rintro ⟨row, hrow, sibling, hsibling, hkind, hparent, rfl⟩
      have hmem : row.parentId ∈ distinct (relations.map Prod.fst) :=
        mem_distinct.mpr (List.mem_map.mpr ⟨(row.parentId, row.childId),
          (hrelated _).mpr ⟨row, hrow, rfl, rfl⟩, rfl⟩)
      obtain ⟨batch, hbatch, hmem⟩ :=
        (Production.mem_chunk Production.queryChunk_pos).mpr hmem
      refine ⟨(row.parentId, sibling.childId), ⟨batch, hbatch, ?_, hmem⟩, rfl⟩
      exact mem_relationshipRows.mpr ⟨sibling, hsibling, hkind, hparent, rfl⟩

/-! ## An attachment of an email with two -/

/-- An email with two attachments. -/
def email : List (Relationship JsString) :=
  [⟨js "e1", js "a1", .attachment⟩, ⟨js "e1", js "a2", .attachment⟩]

/-- With one attachment selected, the worker takes the other one, and the API does not. -/
theorem email_not_agree :
    ¬ ∃ b b' b'' : Batching JsString, Agree b b' b'' email [js "a1"] := by
  rintro ⟨b, b', b'', h⟩
  have hworker : js "a2" ∈ workerExpandFamilies b b' email [js "a1"] := by
    refine mem_workerExpandFamilies.mpr (.inr ⟨⟨js "e1", js "a1", .attachment⟩, ?_,
      ⟨js "e1", js "a2", .attachment⟩, by simp [email], rfl, rfl, rfl⟩)
    exact mem_queryInChunks.mpr ⟨by simp [email], rfl, js "a1", by simp, by decide⟩
  rcases mem_apiExpandFamilies.mp ((h.same _).mp hworker) with hselected | ⟨a, ha, rel, hrel, -, hlink⟩
  · exact absurd (List.mem_singleton.mp hselected) (by decide)
  · obtain rfl := List.mem_singleton.mp ha
    revert rel
    decide

end AegCloudDfir.Families
