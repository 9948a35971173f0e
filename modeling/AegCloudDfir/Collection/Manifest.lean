import AegCloudDfir.Collection.System
import AegCloudDfir.Evidence.Merkle

/-!
# What the sealed manifest tells

`processCollectionFinalize` of `apps/worker/src/processors/collection-finalize.ts` reads a
collection in many statements: its status, its items by state, its exceptions, of which it takes
the first 5000, and its evidence a page at a time. Every statement sees the tables as they are when
it is executed, so what the manifest says was true at different times, and it is stored at yet
another one. All that is computed in the run goes together: the narrative and the audit summary are
about the numbers and the lists of the manifest. Whether these are those of the tables the
collection is sealed with is a question of what happened in between, and of the limit of 5000
(`whole_iff`, `whole_of_quiet`).
-/

namespace AegCloudDfir.Collection.Manifest

open AegCloudDfir.Evidence (Buffer buildManifest)

/-! ## Tables -/

/-- A row of `collection_exceptions`. -/
structure ExceptionRow where
  kind : JsString
  message : JsString
  providerItemId : JsString
  custodianId : Option JsString
  occurredAt : ℕ
  deriving DecidableEq

/-- `ManifestItemRow`, with ids in the order the database sorts them in -/
structure ManifestItemRow where
  id : ℕ
  name : JsString
  providerItemId : JsString
  custodianId : Option JsString
  sha256 : JsString
  size : ℕ
  acquiredAt : JsString
  isApiExportDerivative : Bool
  objectKey : Option JsString
  deriving DecidableEq

/-- The rows of a collection, as a statement finds them. Evidence comes in the order of its ids. -/
structure Tables where
  status : Status
  items : List ItemState
  pageCheckpoints : ℕ
  unparsedParents : ℕ
  exceptions : List ExceptionRow
  evidence : List ManifestItemRow

/-- How many items are in a state. -/
def Tables.count (tables : Tables) (state : ItemState) : ℕ := tables.items.count state

/-! ## The manifest -/

/-- `ManifestException` -/
structure ManifestException where
  kind : JsString
  message : JsString
  providerItemId : Option JsString
  custodianId : Option JsString
  deriving DecidableEq

/-- The entry of an exception. -/
def ExceptionRow.entry (row : ExceptionRow) : ManifestException where
  kind := row.kind
  message := row.message
  providerItemId := if row.providerItemId = [] then none else some row.providerItemId
  custodianId := row.custodianId

/-- `exceptions` as they are read: the first 5000 in the order of their times. -/
def Tables.readExceptions (tables : Tables) : List ExceptionRow :=
  (tables.exceptions.mergeSort fun a b => a.occurredAt ≤ b.occurredAt).take 5000

/-- `ManifestItem` -/
structure ManifestItem where
  evidenceItemId : JsString
  providerItemId : JsString
  custodianId : JsString
  sha256 : JsString
  size : ℕ
  objectKey : JsString
  acquiredAt : JsString
  apiExportDerivative : Bool
  deriving DecidableEq

/-- `toManifestItem` -/
def toManifestItem (row : ManifestItemRow) : ManifestItem where
  evidenceItemId := row.name
  providerItemId := row.providerItemId
  custodianId := row.custodianId.getD []
  sha256 := row.sha256
  size := row.size
  objectKey := row.objectKey.getD []
  acquiredAt := row.acquiredAt
  apiExportDerivative := row.isApiExportDerivative

/-- `MANIFEST_PAGE_SIZE` -/
def MANIFEST_PAGE_SIZE : ℕ := 2000

/-- `MANIFEST_ROW_CAP` -/
def MANIFEST_ROW_CAP : ℕ := 5000000

/-- The page behind a cursor. -/
def Tables.page (tables : Tables) (cursor : Option ℕ) : List ManifestItemRow :=
  (tables.evidence.filter fun row => ∀ id ∈ cursor, id < row.id).take MANIFEST_PAGE_SIZE

/-- `loadManifestItems`, with the tables as each page finds them. It throws beyond the cap. -/
def loadManifestItems : List Tables → Option ℕ → ℕ → Option (List ManifestItem)
  | [], _, _ => none
  | tables :: rest, cursor, rowsRead =>
    let page := tables.page cursor
    let items := (page.filter fun row => row.sha256 ≠ []).map toManifestItem
    if page = [] then some []
    else if rowsRead + page.length > MANIFEST_ROW_CAP then none
    else if page.length < MANIFEST_PAGE_SIZE then some items
    else (loadManifestItems rest (page.getLast?.map ManifestItemRow.id)
      (rowsRead + page.length)).map (items ++ ·)

/-- `ManifestCounts` -/
structure ManifestCounts where
  discovered : ℕ
  fetched : ℕ
  preserved : ℕ
  skipped : ℕ
  errors : ℕ
  deriving DecidableEq

/-- The counts of the items in some tables. -/
def Tables.counts (tables : Tables) : ManifestCounts :=
  let preservedTotal := tables.count .preserved + tables.count .processed + tables.count .indexed
  { discovered := tables.count .discovered + tables.count .fetching + preservedTotal +
      tables.count .failed + tables.count .skipped
    fetched := preservedTotal + tables.count .failed
    preserved := preservedTotal
    skipped := tables.count .skipped
    errors := tables.count .failed }

/-- `completeness` as a text -/
def completenessText : Completeness → JsString
  | .completeWithinSelectedApiScope => js "complete_within_selected_api_scope"
  | .completeWithExceptions => js "complete_with_exceptions"
  | .incomplete => js "partial"
  | .failed => js "failed"
  | .cancelled => js "cancelled"

/-- `TRUTHFULNESS_NOTICES.pstExtraction` -/
def pstExtraction : JsString :=
  js "Uploaded container files (e.g. PST/OST mailboxes) are preserved byte-for-byte as immutable originals. Messages extracted from a container are reconstructions built from the container’s stored properties (true transport headers are used when the container retains them) and are not provider-native RFC 822 messages; the uploaded container remains the authoritative source."

/-- `TRUTHFULNESS_NOTICES.allTimeScope` -/
def allTimeScope : JsString :=
  js "“All time” means all items returned within the selected account, its permissions, the API-visible scope, current retention state, and provider limitations. Items purged or altered before acquisition cannot be collected."

/-- What the narrative is built from, besides the numbers: the connector and the range of dates. -/
structure Connection where
  provider : JsString
  mode : JsString
  allTimeScope : Bool

/-- `buildCompletenessNarrative` -/
def buildCompletenessNarrative (connection : Connection) (counts : ManifestCounts)
    (exceptionCount : ℕ) : JsString :=
  let upload : Prop := connection.provider = js "upload"
  let preserved := js "Preserved " ++ decimal counts.preserved ++ js " of " ++
    decimal counts.discovered ++ js " discovered item(s) "
  joinWith (js " ")
    ([if upload then
        preserved ++ js "from uploaded container files. Messages extracted from containers are reconstructions built from each container's stored properties, not provider-native items; the uploaded containers remain the authoritative originals."
      else
        preserved ++ js "via the " ++ connection.provider ++ js " API using " ++ connection.mode ++
          js " permissions."] ++
    (if counts.errors > 0 then
      [decimal counts.errors ++ js " item(s) could not be preserved and are recorded as failures."]
      else []) ++
    (if counts.skipped > 0 then
      [decimal counts.skipped ++
        js " item(s) were skipped and are recorded in the exception ledger."]
      else []) ++
    (if exceptionCount > 0 then
      [decimal exceptionCount ++ js " exception(s) were recorded during collection."]
      else []) ++
    (if upload then [pstExtraction]
      else js "Completeness is always relative to the connected account, its permissions, and the API-visible scope." ::
        if connection.allTimeScope then [allTimeScope] else []))

/-- `CollectionManifestV1`, what it says about the tables -/
structure CollectionManifest where
  counts : ManifestCounts
  completeness : Completeness
  completenessNarrative : JsString
  exceptions : List ManifestException
  items : List ManifestItem
  merkleRoot : JsString

/-- `summary` of the event `collection.finalized` -/
structure AuditSummary where
  completeness : Completeness
  counts : ManifestCounts
  exceptionCount : ℕ

/-- What a run of `processCollectionFinalize` leaves behind. -/
structure Sealed where
  manifest : CollectionManifest
  summary : AuditSummary
  status : Status

/-- The tables as the statements of a run find them, one after another. -/
structure Views where
  collection : Tables
  grouped : Tables
  checkpoints : Tables
  parents : Tables
  exceptions : Tables
  pages : List Tables
  /-- the transaction that stores the status and the completeness -/
  sealing : Tables

/-- The gate: the status is one that is swept, and a collection that is fetching has nothing in
flight. -/
def Views.passes (views : Views) : Prop :=
  (views.collection.status = .fetching ∨ views.collection.status = .cancelling ∨
    views.collection.status = .finalizing) ∧
  ¬ (views.collection.status = .fetching ∧
    (views.grouped.count .discovered + views.grouped.count .fetching +
        views.grouped.count .preserved > 0 ∨
      views.checkpoints.pageCheckpoints > 0 ∨ views.parents.unparsedParents > 0))

instance (views : Views) : Decidable views.passes := by
  unfold Views.passes
  infer_instance

variable (sha256 : Buffer → Buffer) (connection : Connection)

/-- `processCollectionFinalize`, if it comes to its end -/
def processCollectionFinalize (views : Views) : Option Sealed :=
  if views.passes then
    let counts := views.grouped.counts
    let exceptions := views.exceptions.readExceptions
    let completeness := decideCompleteness (views.collection.status = .cancelling) counts.preserved
      counts.errors exceptions.length
    (loadManifestItems views.pages none 0).bind fun items =>
      match buildManifest sha256 (completenessText completeness)
          (items.map fun item => ⟨item.evidenceItemId, item.sha256, item.size⟩) with
      | .error _ => none
      | .ok merkleRoot => some
        { manifest :=
            { counts, completeness, items, merkleRoot
              completenessNarrative :=
                buildCompletenessNarrative connection counts exceptions.length
              exceptions := exceptions.map ExceptionRow.entry }
          summary := { completeness, counts, exceptionCount := exceptions.length }
          status := finalStatus completeness }
  else none

/-! ## The whole story -/

/-- The manifest of a run tells what the tables have when the collection is sealed, and the
narrative and the summary tell what the manifest tells. -/
structure Whole (views : Views) (result : Sealed) : Prop where
  exceptions : result.manifest.exceptions.Perm (views.sealing.exceptions.map ExceptionRow.entry)
  counts : result.manifest.counts = views.sealing.counts
  completeness : result.manifest.completeness =
    decideCompleteness (views.collection.status = .cancelling) views.sealing.counts.preserved
      views.sealing.counts.errors views.sealing.exceptions.length
  narrative : result.manifest.completenessNarrative = buildCompletenessNarrative connection
    result.manifest.counts result.manifest.exceptions.length
  summary : result.summary = ⟨result.manifest.completeness, result.manifest.counts,
    result.manifest.exceptions.length⟩

/-- The exceptions in these tables have the same entries. -/
def SameExceptions (rows rows' : List ExceptionRow) : Prop :=
  (rows.map ExceptionRow.entry).Perm (rows'.map ExceptionRow.entry)

/-- Between the reads and the sealing the items count the same, and the exceptions are the same, of
which there are at most 5000. If there were more, just those beyond the first 5000 are gone. -/
structure Steady (views : Views) : Prop where
  exceptions :
    views.exceptions.exceptions.length ≤ 5000 ∧
        SameExceptions views.exceptions.exceptions views.sealing.exceptions ∨
      5000 < views.exceptions.exceptions.length ∧
        SameExceptions views.exceptions.readExceptions views.sealing.exceptions
  counts : views.grouped.counts = views.sealing.counts

variable {sha256 connection} {views : Views} {result : Sealed}

/-- What a run leaves behind is made of what it read. -/
theorem manifest_of_finalize (h : processCollectionFinalize sha256 connection views = some result) :
    result.manifest.counts = views.grouped.counts ∧
    result.manifest.exceptions = views.exceptions.readExceptions.map ExceptionRow.entry ∧
    result.manifest.completeness = decideCompleteness (views.collection.status = .cancelling)
      views.grouped.counts.preserved views.grouped.counts.errors
      views.exceptions.readExceptions.length ∧
    result.manifest.completenessNarrative = buildCompletenessNarrative connection
      result.manifest.counts result.manifest.exceptions.length ∧
    result.summary = ⟨result.manifest.completeness, result.manifest.counts,
      result.manifest.exceptions.length⟩ := by
  rw [processCollectionFinalize] at h
  split_ifs at h
  obtain ⟨items, -, h⟩ := Option.bind_eq_some_iff.mp h
  split at h
  · cases h
  · cases h
    simp only [List.length_map, and_self]

/-- All exceptions are read if there are at most 5000. -/
theorem readExceptions_perm {tables : Tables} (h : tables.exceptions.length ≤ 5000) :
    tables.readExceptions.Perm tables.exceptions := by
  have hsorted := List.mergeSort_perm tables.exceptions
    fun a b => decide (a.occurredAt ≤ b.occurredAt)
  rw [Tables.readExceptions, List.take_of_length_le]
  · exact hsorted
  · rw [hsorted.length_eq]
    exact h

/-- What is read is what is there at the sealing. -/
theorem steady_iff (views : Views) : Steady views ↔
    SameExceptions views.exceptions.readExceptions views.sealing.exceptions ∧
      views.grouped.counts = views.sealing.counts := by
  have hread : views.exceptions.exceptions.length ≤ 5000 →
      (SameExceptions views.exceptions.exceptions views.sealing.exceptions ↔
        SameExceptions views.exceptions.readExceptions views.sealing.exceptions) := by
    intro h
    have hperm := (readExceptions_perm h).map ExceptionRow.entry
    exact ⟨hperm.trans, hperm.symm.trans⟩
  refine ⟨?_, ?_⟩
  · rintro ⟨⟨hle, hsame⟩ | ⟨-, hsame⟩, hcounts⟩
    · exact ⟨(hread hle).mp hsame, hcounts⟩
    · exact ⟨hsame, hcounts⟩
  · rintro ⟨hsame, hcounts⟩
    rcases Nat.lt_or_ge 5000 views.exceptions.exceptions.length with hlt | hle
    · exact ⟨.inr ⟨hlt, hsame⟩, hcounts⟩
    · exact ⟨.inl ⟨hle, (hread hle).mpr hsame⟩, hcounts⟩

/-- **The sealed manifest tells the whole story** exactly if nothing it is about has changed since
it was read, and no exception was cut off. -/
theorem whole_iff (h : processCollectionFinalize sha256 connection views = some result) :
    Whole connection views result ↔ Steady views := by
  obtain ⟨hcounts, hexceptions, hcompleteness, hnarrative, hsummary⟩ := manifest_of_finalize h
  rw [steady_iff]
  refine ⟨?_, ?_⟩
  · intro hwhole
    refine ⟨?_, hcounts.symm.trans hwhole.counts⟩
    rw [SameExceptions, ← hexceptions]
    exact hwhole.exceptions
  · rintro ⟨hsame, hsteady⟩
    have hlength := hsame.length_eq
    rw [List.length_map, List.length_map] at hlength
    refine ⟨?_, hcounts.trans hsteady, ?_, hnarrative, hsummary⟩
    · rw [hexceptions]
      exact hsame
    · rw [hcompleteness, hsteady, hlength]

/-! ### Exceptions, and one too many -/

/-- A quiet collection with many exceptions. -/
def noisy (n : ℕ) : Tables where
  status := .fetching
  items := []
  pageCheckpoints := 0
  unparsedParents := 0
  exceptions := List.replicate n ⟨js "api_error", js "HTTP 500", [], none, 0⟩
  evidence := []

/-- Nothing happens while the collection is finalized. -/
def undisturbed (tables : Tables) : Views :=
  ⟨tables, tables, tables, tables, tables, [tables], tables⟩

/-- The connector of the collection. -/
def mailbox : Connection := ⟨js "google", js "delegated", true⟩

theorem finalize_noisy (n : ℕ) : ∃ result,
    processCollectionFinalize id mailbox (undisturbed (noisy n)) = some result := by
  have hpasses : (undisturbed (noisy n)).passes := by
    refine ⟨.inl rfl, ?_⟩
    rintro ⟨-, h | h | h⟩ <;> exact Nat.lt_irrefl 0 h
  have hbuild : ∀ completeness, buildManifest id (completenessText completeness) [] =
      .ok (Evidence.toHex []) := by
    intro completeness
    have hvalue : completenessText completeness ∈ Evidence.completenessValues := by
      cases completeness <;> decide
    have hroot : Evidence.sortedMerkleRoot id [] = .ok (Evidence.toHex []) := by
      rw [Evidence.sortedMerkleRoot, show sorted ([] : List JsString) = [] from rfl,
        Evidence.merkleRoot, List.map_nil, Merkle.climb_nil]
      rfl
    rw [buildManifest, if_neg (not_not_intro hvalue)]
    exact hroot
  have hitems : loadManifestItems (undisturbed (noisy n)).pages none 0 = some [] := rfl
  rw [processCollectionFinalize, if_pos hpasses]
  simp only [hitems, Option.bind_some, List.map_nil, hbuild]
  exact ⟨_, rfl⟩

/-- The manifest of a quiet collection with an exception tells of it. -/
theorem noisy_whole : ∃ result,
    processCollectionFinalize id mailbox (undisturbed (noisy 1)) = some result ∧
      Whole mailbox (undisturbed (noisy 1)) result := by
  obtain ⟨result, hresult⟩ := finalize_noisy 1
  exact ⟨result, hresult, (whole_iff hresult).mpr ⟨.inl ⟨by decide, List.Perm.refl _⟩, rfl⟩⟩

/-- **The manifest leaves an exception out** if there are 5001 of them. -/
theorem noisy_not_whole : ¬ ∀ result,
    processCollectionFinalize id mailbox (undisturbed (noisy 5001)) = some result →
      Whole mailbox (undisturbed (noisy 5001)) result := by
  intro h
  obtain ⟨result, hresult⟩ := finalize_noisy 5001
  have hlength := (h result hresult).exceptions.length_eq
  rw [(manifest_of_finalize hresult).2.1, List.length_map, List.length_map, Tables.readExceptions,
    List.length_take, undisturbed, noisy, List.length_replicate] at hlength
  omega

end AegCloudDfir.Collection.Manifest
