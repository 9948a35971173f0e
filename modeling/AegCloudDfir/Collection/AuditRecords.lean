import AegCloudDfir.Collection.PageKey
import AegCloudDfir.Production.Tables
import AegCloudDfir.Lib.UniqueRows

/-!
# The records of an audit collection

Four sources of `packages/connectors/src` list audit events in pages: Google Reports, the team log
of Dropbox, the Gmail logs in BigQuery, and the Management Activity API of Microsoft. Each makes a
`providerRecordId` for every event, and `processAuditFetchPage` of
`apps/worker/src/processors/collection-audit-fetch-page.ts` inserts the records of a page, with
duplicates skipped, under a key that is unique in the whole collection. What the source puts into
the name of an event, `AuditEvent.key`, must therefore tell the events of all pages and of all
scopes apart, and that of a batch those of all pages (`preserved_iff`).

Of a record only the name, the time and the provider's own element are kept here; the other columns
are read off the element.
-/

namespace AegCloudDfir.Collection

open UniqueRows (insertAll)

/-! ## Records -/

/-- `AuditSystem` -/
inductive AuditSystem : Type where
  | googleReports
  | dropboxTeamLog
  | googleBigqueryGmail
  | o365ManagementActivity
  | graphDirectoryAudits
  | graphSignins
  | googleVault
  deriving DecidableEq

/-- The name of a system. -/
def AuditSystem.text : AuditSystem → JsString
  | .googleReports => js "google_reports"
  | .dropboxTeamLog => js "dropbox_team_log"
  | .googleBigqueryGmail => js "google_bigquery_gmail"
  | .o365ManagementActivity => js "o365_management_activity"
  | .graphDirectoryAudits => js "graph_directory_audits"
  | .graphSignins => js "graph_signins"
  | .googleVault => js "google_vault"

/-- `AuditRecordRaw` -/
structure AuditRecordRaw (Raw : Type) where
  system : AuditSystem
  providerRecordId : JsString
  occurredAt : Option JsString
  raw : Raw
  deriving DecidableEq

/-- What is unique in a collection. -/
def AuditRecordRaw.identity {Raw : Type} (record : AuditRecordRaw Raw) : AuditSystem × JsString :=
  (record.system, record.providerRecordId)

/-- `AuditBatch` -/
structure AuditBatch (Raw : Type) where
  system : AuditSystem
  batchId : JsString
  scopeKey : JsString
  records : List (AuditRecordRaw Raw)

/-- A scope of a source: an application, a content type, a table, or the team's events. The contract
lists the applications and the content types, and none has a slash. -/
structure AuditScopeKey where
  text : JsString
  no_slash : unitOf '/' ∉ text
  deriving DecidableEq

/-! ## Sources -/

section Sources

variable {Raw : Type}

/-- `activitySchema`; a numeric qualifier is given as `String` writes it. -/
structure Activity (Raw : Type) where
  uniqueQualifier : Option JsString
  time : Option JsString
  events : List Raw

/-- What is appended to the name of an event if its activity has several. -/
def Activity.mark (activity : Activity Raw) (eventIndex : ℕ) : JsString :=
  if activity.events.length > 1 then js "#" ++ decimal eventIndex else []

/-- A record of `GoogleReportsConnector` -/
def reportsRecord (activity : Activity Raw) (eventIndex : ℕ) (raw : Raw) : AuditRecordRaw Raw where
  system := .googleReports
  providerRecordId := activity.uniqueQualifier.getD (js "na") ++ js ":" ++
    activity.time.getD (js "na") ++ activity.mark eventIndex
  occurredAt := activity.time
  raw := raw

/-- `fetchAuditPage` of `GoogleReportsConnector`, with the activities of the answer -/
def fetchReportsPage (scopeKey : JsString) (cursor : Option JsString)
    (items : List (Activity Raw)) : AuditBatch Raw where
  system := .googleReports
  batchId := scopeKey ++ js ":" ++ cursor.getD (js "initial")
  scopeKey := scopeKey
  records := items.flatMap fun activity => activity.events.mapIdx (reportsRecord activity)

/-- An event of the team log. -/
structure TeamEvent (Raw : Type) where
  timestamp : Option JsString
  raw : Raw

/-- `str`: an empty text counts as none. -/
def nonEmpty (value : Option JsString) : Option JsString := value.filter fun s => s ≠ []

/-- `RawTeamLogPage` -/
structure RawTeamLogPage (Raw : Type) where
  events : List (TeamEvent Raw)
  cursor : JsString

/-- A record of `mapTeamLogPage` -/
def teamLogRecord (index : ℕ) (event : TeamEvent Raw) : AuditRecordRaw Raw where
  system := .dropboxTeamLog
  providerRecordId := (nonEmpty event.timestamp).getD (js "na") ++ js "#" ++ decimal index
  occurredAt := nonEmpty event.timestamp
  raw := event.raw

/-- `mapTeamLogPage` -/
def mapTeamLogPage (page : RawTeamLogPage Raw) (scopeKey : JsString) : AuditBatch Raw where
  system := .dropboxTeamLog
  batchId := scopeKey ++ js ":" ++ if page.cursor = [] then js "initial" else page.cursor
  scopeKey := scopeKey
  records := page.events.mapIdx teamLogRecord

/-- A row of BigQuery: its cells that are texts or numbers, as texts, and the object of all of
them. -/
structure BqRow (Raw : Type) where
  f : List (Option JsString)
  raw : Raw

/-- An answer of BigQuery. -/
structure BqPage (Raw : Type) where
  fieldNames : List JsString
  rows : List (BqRow Raw)

/-- `col`, as `cellString` reads it -/
def BqPage.col (page : BqPage Raw) (row : BqRow Raw) (name : String) : Option JsString :=
  (page.fieldNames.idxOf? (js name)).bind fun i => row.f[i]?.join

/-- A record of `BigQueryGmailConnector` -/
def gmailRecord (page : BqPage Raw) (rowIndex : ℕ) (row : BqRow Raw) : AuditRecordRaw Raw where
  system := .googleBigqueryGmail
  providerRecordId := (page.col row "message_id").getD (js "na") ++ js ":" ++
    (page.col row "mail_event_type").getD (js "na") ++ js ":" ++
      (page.col row "event_time").getD (decimal rowIndex)
  occurredAt := page.col row "event_time"
  raw := row.raw

/-- `fetchAuditPage` of `BigQueryGmailConnector` -/
def fetchGmailLogPage (scopeKey : JsString) (cursor : Option JsString) (page : BqPage Raw) :
    AuditBatch Raw where
  system := .googleBigqueryGmail
  batchId := scopeKey ++ js ":" ++ cursor.getD (js "initial")
  scopeKey := scopeKey
  records := page.rows.mapIdx (gmailRecord page)

/-- An element of the Unified Audit Log. -/
structure UalElement (Raw : Type) where
  Id : JsString
  CreationTime : Option JsString
  raw : Raw

/-- A blob of a content list. -/
structure ContentBlob (Raw : Type) where
  contentId : JsString
  elements : List (UalElement Raw)

/-- `mapRecord` -/
def mapRecord (element : UalElement Raw) : AuditRecordRaw Raw where
  system := .o365ManagementActivity
  providerRecordId := element.Id
  occurredAt := element.CreationTime
  raw := element.raw

/-- `fetchAuditPage` of `O365ManagementActivityConnector` -/
def fetchContentPage (scopeKey : JsString) (list : List (ContentBlob Raw)) :
    List (AuditBatch Raw) :=
  list.map fun item =>
    { system := .o365ManagementActivity
      batchId := item.contentId
      scopeKey := scopeKey
      records := item.elements.map mapRecord }

/-- A page of a source, with the cursor it was asked for with. -/
inductive AuditPage (Raw : Type) : Type where
  | googleReports (application : AuditScopeKey) (cursor : Option JsString)
      (items : List (Activity Raw))
  | dropboxTeamLog (scopeKey : AuditScopeKey) (page : RawTeamLogPage Raw)
  | googleBigqueryGmail (table : AuditScopeKey) (cursor : Option JsString) (page : BqPage Raw)
  | o365ManagementActivity (contentType : AuditScopeKey) (list : List (ContentBlob Raw))

/-- `fetchAuditPage`: the batches of a page. -/
def AuditPage.batches : AuditPage Raw → List (AuditBatch Raw)
  | .googleReports application cursor items => [fetchReportsPage application.text cursor items]
  | .dropboxTeamLog scopeKey page => [mapTeamLogPage page scopeKey.text]
  | .googleBigqueryGmail table cursor page => [fetchGmailLogPage table.text cursor page]
  | .o365ManagementActivity contentType list => fetchContentPage contentType.text list

/-! ## Committing a page -/

/-- `AUDIT_RECORD_INSERT_CHUNK` -/
def AUDIT_RECORD_INSERT_CHUNK : ℕ := 1000

/-- The collection items of the batches, and the rows of `AuditRecord`, of one collection. -/
structure AuditTables (Raw : Type) where
  items : List JsString
  rows : List (AuditRecordRaw Raw)

/-- `batchProviderId` -/
def AuditBatch.providerItemId (batch : AuditBatch Raw) : JsString :=
  batch.system.text ++ js "/" ++ batch.scopeKey ++ js "/" ++ batch.batchId

/-- A batch that has no item gets one, and its records are inserted. -/
def commitBatch (tables : AuditTables Raw) (batch : AuditBatch Raw) : AuditTables Raw :=
  if batch.providerItemId ∈ tables.items then tables
  else
    { items := tables.items ++ [batch.providerItemId]
      rows := (Production.chunk AUDIT_RECORD_INSERT_CHUNK batch.records).foldl
        (insertAll AuditRecordRaw.identity) tables.rows }

/-- The transaction of `processAuditFetchPage`. Only the job that advances the checkpoint gets this
far, so every page is committed once. -/
def commitPage (tables : AuditTables Raw) (page : AuditPage Raw) : AuditTables Raw :=
  page.batches.foldl commitBatch tables

/-- The tables when all pages of a collection are committed, of whatever scopes and in whatever
order. -/
def commitPages (pages : List (AuditPage Raw)) : AuditTables Raw :=
  pages.foldl commitPage ⟨[], []⟩

/-- The provider's own elements on a page. -/
def AuditPage.elements : AuditPage Raw → List Raw
  | .googleReports _ _ items => items.flatMap Activity.events
  | .dropboxTeamLog _ page => page.events.map TeamEvent.raw
  | .googleBigqueryGmail _ _ page => page.rows.map BqRow.raw
  | .o365ManagementActivity _ list => list.flatMap fun item => item.elements.map UalElement.raw

/-- The rows are the events of the pages, each exactly once. -/
def Preserved (pages : List (AuditPage Raw)) : Prop :=
  ((commitPages pages).rows.map AuditRecordRaw.raw).Perm (pages.flatMap AuditPage.elements)

/-! ## What tells events apart -/

/-- An event, with its place where the source uses it. -/
inductive AuditEvent (Raw : Type) : Type where
  | report (activity : Activity Raw) (eventIndex : ℕ) (raw : Raw)
  | team (index : ℕ) (event : TeamEvent Raw)
  | gmail (page : BqPage Raw) (rowIndex : ℕ) (row : BqRow Raw)
  | management (element : UalElement Raw)

/-- The record of an event. -/
def AuditEvent.record : AuditEvent Raw → AuditRecordRaw Raw
  | .report activity eventIndex raw => reportsRecord activity eventIndex raw
  | .team index event => teamLogRecord index event
  | .gmail page rowIndex row => gmailRecord page rowIndex row
  | .management element => mapRecord element

/-- What is left of the fields of an event in its name. Of fields that are joined by colons it is
the parts between the colons, because fields may have colons themselves. -/
inductive EventKey : Type where
  | report (parts : List JsString)
  | team (timestamp : JsString) (index : ℕ)
  | gmail (parts : List JsString)
  | management (id : JsString)
  deriving DecidableEq

/-- The fields that name an event: a qualifier, a timestamp, a message or a type that is not there
counts as `na`, and a time in BigQuery as the number of the row. -/
def AuditEvent.key : AuditEvent Raw → EventKey
  | .report activity eventIndex _ =>
    .report ((activity.uniqueQualifier.getD (js "na")).splitOn colon ++
      (activity.time.getD (js "na") ++ activity.mark eventIndex).splitOn colon)
  | .team index event => .team ((nonEmpty event.timestamp).getD (js "na")) index
  | .gmail page rowIndex row =>
    .gmail (((page.col row "message_id").getD (js "na")).splitOn colon ++
      ((page.col row "mail_event_type").getD (js "na")).splitOn colon ++
        ((page.col row "event_time").getD (decimal rowIndex)).splitOn colon)
  | .management element => .management element.Id

/-- What names a batch: besides its scope, a cursor or a content id. -/
structure BatchKey where
  system : AuditSystem
  scopeKey : AuditScopeKey
  place : JsString
  deriving DecidableEq

/-- The events of a page, batch by batch, and what names the batches. -/
def AuditPage.contents : AuditPage Raw → List (BatchKey × List (AuditEvent Raw))
  | .googleReports application cursor items =>
    [(⟨.googleReports, application, cursor.getD (js "initial")⟩,
      items.flatMap fun activity => activity.events.mapIdx (AuditEvent.report activity))]
  | .dropboxTeamLog scopeKey page =>
    [(⟨.dropboxTeamLog, scopeKey, if page.cursor = [] then js "initial" else page.cursor⟩,
      page.events.mapIdx AuditEvent.team)]
  | .googleBigqueryGmail table cursor page =>
    [(⟨.googleBigqueryGmail, table, cursor.getD (js "initial")⟩,
      page.rows.mapIdx (AuditEvent.gmail page))]
  | .o365ManagementActivity contentType list => list.map fun item =>
    (⟨.o365ManagementActivity, contentType, item.contentId⟩, item.elements.map AuditEvent.management)

/-- The events of all pages have different keys, and a batch with the key of an earlier one has no
events. -/
structure Distinct (pages : List (AuditPage Raw)) : Prop where
  events : ((pages.flatMap AuditPage.contents).flatMap fun content =>
    content.2.map AuditEvent.key).Nodup
  batches : (pages.flatMap AuditPage.contents).Pairwise fun earlier later =>
    earlier.1 = later.1 → later.2 = []

/-! ### Names -/

theorem splitOn_injective (a : CodeUnit) :
    Function.Injective fun s : JsString => s.splitOn a := by
  intro s t h
  have hs : [a].intercalate (s.splitOn a) = s := List.intercalate_splitOn a
  rw [← hs, show s.splitOn a = t.splitOn a from h, List.intercalate_splitOn]

/-- Texts joined by a colon are read as their parts. -/
theorem splitOn_colon (s t : JsString) :
    (s ++ js ":" ++ t).splitOn colon = s.splitOn colon ++ t.splitOn colon := by
  rw [List.append_assoc]
  exact List.splitOn_append_cons_self s t

/-- An event of the team log is read from the end. -/
theorem hash_inj {s t : JsString} {i j : ℕ} :
    s ++ js "#" ++ decimal i = t ++ js "#" ++ decimal j ↔ s = t ∧ i = j := by
  refine ⟨fun h => ?_, by rintro ⟨rfl, rfl⟩; rfl⟩
  have hdecimal : ∀ n, (decimal n).splitOn (unitOf '#') = [decimal n] := fun n =>
    List.splitOn_eq_singleton fun hmem => absurd (isDigit_of_mem_decimal hmem) (by decide)
  have hsplit : ∀ (u : JsString) n, (u ++ js "#" ++ decimal n).splitOn (unitOf '#') =
      u.splitOn (unitOf '#') ++ [decimal n] := by
    intro u n
    rw [List.append_assoc, ← hdecimal n]
    exact List.splitOn_append_cons_self u (decimal n)
  have hparts := congrArg (List.splitOn (unitOf '#')) h
  rw [hsplit, hsplit] at hparts
  obtain ⟨hst, hij⟩ := List.append_inj' hparts rfl
  exact ⟨splitOn_injective _ hst, decimal_injective (List.singleton_inj.mp hij)⟩

/-- The system of a key. -/
def EventKey.system : EventKey → AuditSystem
  | .report _ => .googleReports
  | .team _ _ => .dropboxTeamLog
  | .gmail _ => .googleBigqueryGmail
  | .management _ => .o365ManagementActivity

theorem system_key (event : AuditEvent Raw) : event.record.system = event.key.system := by
  cases event <;> rfl

/-- In one system, names are equal exactly if keys are. -/
theorem providerRecordId_eq_iff {event other : AuditEvent Raw}
    (h : event.key.system = other.key.system) :
    event.record.providerRecordId = other.record.providerRecordId ↔ event.key = other.key := by
  have hcolon : ∀ s t : JsString, s = t ↔ s.splitOn colon = t.splitOn colon :=
    fun s t => (splitOn_injective colon).eq_iff.symm
  cases event with
  | report activity eventIndex raw =>
    cases other with
    | report activity' eventIndex' raw' =>
      simp only [AuditEvent.record, reportsRecord, AuditEvent.key, EventKey.report.injEq]
      rw [List.append_assoc _ _ (activity.mark eventIndex),
        List.append_assoc _ _ (activity'.mark eventIndex'), hcolon, splitOn_colon, splitOn_colon]
    | _ => cases h
  | team index event =>
    cases other with
    | team index' event' =>
      simp only [AuditEvent.record, teamLogRecord, AuditEvent.key, EventKey.team.injEq, hash_inj]
    | _ => cases h
  | gmail page rowIndex row =>
    cases other with
    | gmail page' rowIndex' row' =>
      simp only [AuditEvent.record, gmailRecord, AuditEvent.key, EventKey.gmail.injEq]
      rw [hcolon, splitOn_colon, splitOn_colon, splitOn_colon, splitOn_colon]
    | _ => cases h
  | management element =>
    cases other with
    | management element' =>
      simp only [AuditEvent.record, mapRecord, AuditEvent.key, EventKey.management.injEq]
    | _ => cases h

/-- **What is unique in a collection** is the key of an event. -/
theorem identity_eq_iff {event other : AuditEvent Raw} :
    event.record.identity = other.record.identity ↔ event.key = other.key := by
  rw [AuditRecordRaw.identity, AuditRecordRaw.identity, Prod.mk.injEq, system_key, system_key]
  refine ⟨?_, ?_⟩
  · rintro ⟨hsystem, hid⟩
    exact (providerRecordId_eq_iff hsystem).mp hid
  · intro hkey
    have hsystem := congrArg EventKey.system hkey
    exact ⟨hsystem, (providerRecordId_eq_iff hsystem).mpr hkey⟩

/-- `batchId` -/
def BatchKey.batchId (key : BatchKey) : JsString :=
  match key.system with
  | .o365ManagementActivity | .googleVault => key.place
  | _ => key.scopeKey.text ++ js ":" ++ key.place

/-- The batch of some events. -/
def batchOf (content : BatchKey × List (AuditEvent Raw)) : AuditBatch Raw where
  system := content.1.system
  batchId := content.1.batchId
  scopeKey := content.1.scopeKey.text
  records := content.2.map AuditEvent.record

theorem map_mapIdx {α β γ : Type} (f : ℕ → α → β) (g : β → γ) (xs : List α) :
    (xs.mapIdx f).map g = xs.mapIdx fun i a => g (f i a) := by
  refine List.ext_getElem? fun i => ?_
  simp only [List.getElem?_map, List.getElem?_mapIdx, Option.map_map]
  rfl

/-- The places may be forgotten. -/
theorem mapIdx_eq_map {α β : Type} (f : α → β) (xs : List α) :
    (xs.mapIdx fun _ a => f a) = xs.map f := by
  refine List.ext_getElem? fun i => ?_
  rw [List.getElem?_map, List.getElem?_mapIdx]

/-- The batches of a page are made of its contents. -/
theorem batches_eq (page : AuditPage Raw) : page.batches = page.contents.map batchOf := by
  cases page with
  | googleReports application cursor items =>
    simp only [AuditPage.batches, AuditPage.contents, fetchReportsPage, List.map_singleton, batchOf,
      BatchKey.batchId, List.map_flatMap, map_mapIdx]
    rfl
  | dropboxTeamLog scopeKey page =>
    simp only [AuditPage.batches, AuditPage.contents, mapTeamLogPage, List.map_singleton, batchOf,
      BatchKey.batchId, map_mapIdx]
    rfl
  | googleBigqueryGmail table cursor page =>
    simp only [AuditPage.batches, AuditPage.contents, fetchGmailLogPage, List.map_singleton, batchOf,
      BatchKey.batchId, map_mapIdx]
    rfl
  | o365ManagementActivity contentType list =>
    simp only [AuditPage.batches, AuditPage.contents, fetchContentPage, List.map_map]
    refine List.map_congr_left fun item _ => ?_
    simp only [Function.comp_apply, batchOf, BatchKey.batchId, List.map_map]
    rfl

/-- The elements of a page are those of its contents. -/
theorem elements_eq (page : AuditPage Raw) : page.elements =
    page.contents.flatMap fun content => content.2.map fun event => event.record.raw := by
  cases page with
  | googleReports application cursor items =>
    simp only [AuditPage.elements, AuditPage.contents, List.flatMap_singleton, List.map_flatMap,
      map_mapIdx, AuditEvent.record, reportsRecord]
    refine List.flatMap_congr fun activity _ => ?_
    rw [mapIdx_eq_map, List.map_id']
  | dropboxTeamLog scopeKey page =>
    simp only [AuditPage.elements, AuditPage.contents, List.flatMap_singleton, map_mapIdx,
      AuditEvent.record, teamLogRecord]
    rw [mapIdx_eq_map]
  | googleBigqueryGmail table cursor page =>
    simp only [AuditPage.elements, AuditPage.contents, List.flatMap_singleton, map_mapIdx,
      AuditEvent.record, gmailRecord]
    rw [mapIdx_eq_map]
  | o365ManagementActivity contentType list =>
    simp only [AuditPage.elements, AuditPage.contents, List.flatMap_map, List.map_map]
    rfl

/-- A text without slashes is read up to the first slash. -/
theorem slash_inj {s t x y : JsString} (hs : unitOf '/' ∉ s) (ht : unitOf '/' ∉ t)
    (h : s ++ js "/" ++ x = t ++ js "/" ++ y) : s = t ∧ x = y := by
  have hsplit : ∀ {u v : JsString}, unitOf '/' ∉ u →
      (u ++ js "/" ++ v).splitOn (unitOf '/') = u :: v.splitOn (unitOf '/') := by
    intro u v hu
    rw [List.append_assoc]
    exact List.splitOn_append_cons_self_of_not_mem hu v
  have hparts := congrArg (List.splitOn (unitOf '/')) h
  rw [hsplit hs, hsplit ht, List.cons.injEq] at hparts
  exact ⟨hparts.1, splitOn_injective _ hparts.2⟩

theorem AuditSystem.slash_not_mem (system : AuditSystem) : unitOf '/' ∉ system.text := by
  cases system <;> decide

theorem AuditSystem.text_injective : Function.Injective AuditSystem.text := by
  intro x y h
  cases x <;> cases y <;> first | rfl | exact absurd h (by decide)

/-- **The items of two batches are one** exactly if their keys are equal. -/
theorem providerItemId_batchOf_iff {content other : BatchKey × List (AuditEvent Raw)} :
    (batchOf content).providerItemId = (batchOf other).providerItemId ↔ content.1 = other.1 := by
  refine ⟨fun h => ?_, fun h => by simp [AuditBatch.providerItemId, batchOf, h]⟩
  obtain ⟨⟨system, scopeKey, place⟩, events⟩ := content
  obtain ⟨⟨system', scopeKey', place'⟩, events'⟩ := other
  simp only [AuditBatch.providerItemId, batchOf] at h
  -- the system, the scope, and what is behind them
  rw [List.append_assoc _ scopeKey.text, List.append_assoc _ (scopeKey.text ++ _),
    List.append_assoc _ scopeKey'.text, List.append_assoc _ (scopeKey'.text ++ _)] at h
  obtain ⟨hsystem, h⟩ := slash_inj system.slash_not_mem system'.slash_not_mem h
  obtain ⟨hscope, h⟩ := slash_inj scopeKey.no_slash scopeKey'.no_slash h
  obtain rfl := AuditSystem.text_injective hsystem
  obtain rfl : scopeKey = scopeKey' := by
    cases scopeKey
    cases scopeKey'
    congr
  have hplace : place = place' := by
    cases system
    case o365ManagementActivity | googleVault => exact h
    all_goals exact List.append_cancel_left h
  rw [hplace]

/-! ### All pages -/

/-- The records of some batches. -/
def recordsOf (contents : List (BatchKey × List (AuditEvent Raw))) : List (AuditRecordRaw Raw) :=
  contents.flatMap fun content => content.2.map AuditEvent.record

/-- The tables after some batches. -/
def committed (contents : List (BatchKey × List (AuditEvent Raw))) : AuditTables Raw :=
  (contents.map batchOf).foldl commitBatch ⟨[], []⟩

theorem commitPages_eq (pages : List (AuditPage Raw)) :
    commitPages pages = committed (pages.flatMap AuditPage.contents) := by
  rw [committed, List.map_flatMap, commitPages, List.foldl_flatMap]
  simp only [← batches_eq]
  rfl

theorem committed_concat (contents : List (BatchKey × List (AuditEvent Raw)))
    (last : BatchKey × List (AuditEvent Raw)) :
    committed (contents ++ [last]) = commitBatch (committed contents) (batchOf last) := by
  rw [committed, List.map_append, List.foldl_append]
  rfl

/-- The records of a batch are inserted as if at once. -/
theorem commitBatch_eq (tables : AuditTables Raw) (batch : AuditBatch Raw) :
    commitBatch tables batch = if batch.providerItemId ∈ tables.items then tables
      else ⟨tables.items ++ [batch.providerItemId],
        insertAll AuditRecordRaw.identity tables.rows batch.records⟩ := by
  rw [commitBatch, UniqueRows.foldl_insertAll, Production.chunk_flatten (by decide)]

/-- Every batch has an item, its own or that of another. -/
theorem mem_items_committed {contents : List (BatchKey × List (AuditEvent Raw))} {id : JsString} :
    id ∈ (committed contents).items ↔
      ∃ content ∈ contents, (batchOf content).providerItemId = id := by
  induction contents using List.reverseRecOn with
  | nil => simp [committed]
  | append_singleton contents last ih =>
    rw [committed_concat, commitBatch_eq]
    simp only [List.mem_append, List.mem_singleton, or_and_right, exists_or, exists_eq_left]
    split_ifs with hlast
    · rw [ih]
      refine ⟨.inl, ?_⟩
      rintro (h | rfl)
      · exact h
      · exact ih.mp hlast
    · rw [List.mem_append, List.mem_singleton, ih, eq_comm]

/-- The rows are some of the records. -/
theorem rows_sublist (contents : List (BatchKey × List (AuditEvent Raw))) :
    (committed contents).rows.Sublist (recordsOf contents) := by
  induction contents using List.reverseRecOn with
  | nil => exact List.Sublist.refl _
  | append_singleton contents last ih =>
    rw [committed_concat, commitBatch_eq, recordsOf, List.flatMap_append, List.flatMap_singleton,
      ← recordsOf]
    split_ifs
    · exact ih.trans (List.sublist_append_left _ _)
    · obtain ⟨taken, hsub, heq⟩ := UniqueRows.insertAll_eq_append AuditRecordRaw.identity
        (committed contents).rows (batchOf last).records
      rw [heq]
      exact ih.append hsub

/-- **All records are inserted** exactly if nothing has the name of another. -/
theorem rows_eq_iff (contents : List (BatchKey × List (AuditEvent Raw))) :
    (committed contents).rows = recordsOf contents ↔
      ((recordsOf contents).map AuditRecordRaw.identity).Nodup ∧
        contents.Pairwise fun earlier later => earlier.1 = later.1 → later.2 = [] := by
  induction contents using List.reverseRecOn with
  | nil => simp [committed, recordsOf]
  | append_singleton contents last ih =>
    have hrecords : recordsOf (contents ++ [last]) =
        recordsOf contents ++ (batchOf last).records := by
      rw [recordsOf, List.flatMap_append, List.flatMap_singleton]
      rfl
    have hitem : (batchOf last).providerItemId ∈ (committed contents).items ↔
        ∃ content ∈ contents, content.1 = last.1 := by
      simp only [mem_items_committed, providerItemId_batchOf_iff]
    have hempty : (batchOf last).records = [] ↔ last.2 = [] := List.map_eq_nil_iff
    rw [committed_concat, commitBatch_eq, hrecords, List.map_append, List.nodup_append,
      List.pairwise_append]
    simp only [List.mem_singleton, forall_eq, List.pairwise_singleton, true_and]
    have hsub := rows_sublist contents
    split_ifs with hlast
    · -- a batch that is taken for another inserts nothing
      obtain ⟨content, hcontent, hkey⟩ := hitem.mp hlast
      have hsplit : (committed contents).rows = recordsOf contents ++ (batchOf last).records ↔
          (committed contents).rows = recordsOf contents ∧ [] = (batchOf last).records := by
        rw [← UniqueRows.append_eq_append_iff_of_sublist hsub (List.nil_sublist _),
          List.append_nil]
      rw [hsplit, ih, eq_comm (a := []), hempty]
      refine ⟨?_, ?_⟩
      · rintro ⟨⟨hnodup, hpairwise⟩, hnil⟩
        rw [hempty.mpr hnil]
        exact ⟨⟨hnodup, by simp, by simp⟩, hpairwise, fun _ _ _ => hnil⟩
      · rintro ⟨⟨hnodup, -, -⟩, hpairwise, hnil⟩
        exact ⟨⟨hnodup, hpairwise⟩, hnil content hcontent hkey⟩
    · -- otherwise it inserts all its records if their names are new
      have hnone : ∀ content ∈ contents, content.1 = last.1 → last.2 = [] :=
        fun content hcontent hkey => absurd (hitem.mpr ⟨content, hcontent, hkey⟩) hlast
      obtain ⟨taken, htaken, heq⟩ := UniqueRows.insertAll_eq_append AuditRecordRaw.identity
        (committed contents).rows (batchOf last).records
      rw [heq, UniqueRows.append_eq_append_iff_of_sublist hsub htaken, ih,
        and_iff_left hnone]
      have hall : taken = (batchOf last).records ↔
          ((batchOf last).records.map AuditRecordRaw.identity).Nodup ∧
            ∀ record ∈ (batchOf last).records,
              record.identity ∉ (committed contents).rows.map AuditRecordRaw.identity := by
        rw [← UniqueRows.insertAll_eq_append_iff, heq, List.append_cancel_left_eq]
      rw [hall]
      refine ⟨?_, ?_⟩
      · rintro ⟨⟨hnodup, hpairwise⟩, hlastNodup, hnew⟩
        rw [ih.mpr ⟨hnodup, hpairwise⟩] at hnew
        refine ⟨⟨hnodup, hlastNodup, ?_⟩, hpairwise⟩
        rintro identity hidentity other hother rfl
        obtain ⟨record, hrecord, rfl⟩ := List.mem_map.mp hother
        exact hnew record hrecord hidentity
      · rintro ⟨⟨hnodup, hlastNodup, hnew⟩, hpairwise⟩
        rw [ih.mpr ⟨hnodup, hpairwise⟩]
        refine ⟨⟨hnodup, hpairwise⟩, hlastNodup, fun record hrecord hmem => ?_⟩
        exact hnew _ hmem _ (List.mem_map_of_mem hrecord) rfl

/-- The names of the records are different exactly if the keys of the events are. -/
theorem nodup_identities_iff (contents : List (BatchKey × List (AuditEvent Raw))) :
    ((recordsOf contents).map AuditRecordRaw.identity).Nodup ↔
      (contents.flatMap fun content => content.2.map AuditEvent.key).Nodup := by
  have hrecords : recordsOf contents = (contents.flatMap Prod.snd).map AuditEvent.record := by
    rw [recordsOf, List.map_flatMap]
  have hkeys : (contents.flatMap fun content => content.2.map AuditEvent.key) =
      (contents.flatMap Prod.snd).map AuditEvent.key := by
    rw [List.map_flatMap]
  rw [hrecords, hkeys, List.map_map, List.Nodup, List.pairwise_map, List.Nodup, List.pairwise_map]
  simp only [Function.comp_apply, ne_eq, identity_eq_iff]

/-- Nothing is lost exactly if all records are inserted. -/
theorem preserved_iff_rows (pages : List (AuditPage Raw)) : Preserved pages ↔
    (committed (pages.flatMap AuditPage.contents)).rows =
      recordsOf (pages.flatMap AuditPage.contents) := by
  have helements : pages.flatMap AuditPage.elements =
      (recordsOf (pages.flatMap AuditPage.contents)).map AuditRecordRaw.raw := by
    rw [recordsOf, List.flatMap_assoc, List.map_flatMap]
    refine List.flatMap_congr fun page _ => ?_
    rw [elements_eq, List.map_flatMap]
    simp only [List.map_map]
    rfl
  rw [Preserved, helements, commitPages_eq]
  refine ⟨?_, ?_⟩
  · intro hperm
    have hlength := hperm.length_eq
    rw [List.length_map, List.length_map] at hlength
    exact (rows_sublist _).eq_of_length hlength
  · intro heq
    rw [heq]

/-- **No event of an audit collection is lost** exactly if the fields that name the events tell
them all apart, and those that name the batches tell apart the batches that have events. -/
theorem preserved_iff (pages : List (AuditPage Raw)) : Preserved pages ↔ Distinct pages := by
  rw [preserved_iff_rows, rows_eq_iff, nodup_identities_iff]
  exact ⟨fun h => ⟨h.1, h.2⟩, fun h => ⟨h.events, h.batches⟩⟩

end Sources

/-! ### One name for two events -/

theorem login_no_slash : unitOf '/' ∉ js "login" := by decide

theorem token_no_slash : unitOf '/' ∉ js "token" := by decide

theorem team_events_no_slash : unitOf '/' ∉ js "team_events" := by decide

/-- An activity of one event. -/
def signIn (raw : ℕ) : Activity ℕ where
  uniqueQualifier := some (js "358068855354")
  time := some (js "2024-03-01T09:30:00.000Z")
  events := [raw]

/-- The same qualifier at the same time in two applications: the second event has no row. -/
theorem signIn_lost : ¬ Preserved [.googleReports ⟨js "login", login_no_slash⟩ none [signIn 1],
    .googleReports ⟨js "token", token_no_slash⟩ none [signIn 2]] := by
  intro h
  exact absurd h.length_eq (by decide +kernel)

end AegCloudDfir.Collection
