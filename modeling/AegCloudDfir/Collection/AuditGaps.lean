import AegCloudDfir.Collection.AuditRecords

/-!
# Gaps between what a provider reports and what is stored

With every batch of audit records a source says how many records the provider reported, if it knows
(`providerReportedCount`), and `processAuditFetchPage` records an exception where that number is not
the number of records of the batch. What the number is differs from source to source: the activities
of a page of Google Reports, each of which may have any number of events; all rows of a query of
BigQuery, however many a page has; and for all other sources just the number of records itself. On
the other side, records are observed before those with a name that is already taken are skipped, and
a batch that was seen before is skipped without a look at its numbers.

So which scopes get an exception (`recorded_iff`) and which scopes miss a record (`unstored_iff`)
are two different things, and the exceptions are exact for just the collections where they happen
to agree (`exact_iff`).
-/

namespace AegCloudDfir.Collection.AuditGaps

open UniqueRows (insertAll)

section Gaps

variable {Raw : Type}

/-! ## All sources -/

/-- `AuditBatch`, with the number of records the provider reported -/
structure CountedBatch (Raw : Type) extends AuditBatch Raw where
  providerReportedCount : Option ℕ

/-- The two scopes of `GraphAuditConnector` -/
inductive GraphAuditScope : Type where
  | directoryAudits
  | signIns
  deriving DecidableEq

/-- `SCOPE_CONFIG` -/
def GraphAuditScope.system : GraphAuditScope → AuditSystem
  | .directoryAudits => .graphDirectoryAudits
  | .signIns => .graphSignins

theorem directoryAudits_no_slash : unitOf '/' ∉ js "directoryAudits" := by decide

theorem signIns_no_slash : unitOf '/' ∉ js "signIns" := by decide

/-- The name of a scope. -/
def GraphAuditScope.key : GraphAuditScope → AuditScopeKey
  | .directoryAudits => ⟨js "directoryAudits", directoryAudits_no_slash⟩
  | .signIns => ⟨js "signIns", signIns_no_slash⟩

/-- An element of the directory audits or the sign-ins. -/
structure GraphElement (Raw : Type) where
  id : JsString
  date : Option JsString
  raw : Raw

/-- `mapDirectoryAudit` and `mapSignIn` -/
def graphRecord (scope : GraphAuditScope) (element : GraphElement Raw) : AuditRecordRaw Raw where
  system := scope.system
  providerRecordId := element.id
  occurredAt := element.date
  raw := element.raw

/-- `fetchAuditPage` of `GraphAuditConnector`, with the `$skiptoken` of the page -/
def fetchGraphAuditPage (scope : GraphAuditScope) (skipToken : Option JsString)
    (value : List (GraphElement Raw)) : CountedBatch Raw where
  system := scope.system
  batchId := scope.key.text ++ js ":" ++ skipToken.getD (js "initial")
  scopeKey := scope.key.text
  records := value.map (graphRecord scope)
  providerReportedCount := some value.length

/-- An export of a matter. -/
structure VaultExport (Raw : Type) where
  id : JsString
  completed : Bool
  createTime : Option JsString
  raw : Raw

/-- The record of an export. -/
def vaultRecord (element : VaultExport Raw) : AuditRecordRaw Raw where
  system := .googleVault
  providerRecordId := element.id
  occurredAt := element.createTime
  raw := element.raw

/-- `fetchAuditPage` of `GoogleVaultConnector`: exports in progress are skipped, and every other one
is a batch of its own. -/
def fetchVaultPage (scopeKey : JsString) (exports : List (VaultExport Raw)) :
    List (CountedBatch Raw) :=
  (exports.filter VaultExport.completed).map fun element =>
    { system := .googleVault
      batchId := element.id
      scopeKey := scopeKey
      records := [vaultRecord element]
      providerReportedCount := some 1 }

/-- A page of any source. What `totalRows` says of a query is read for BigQuery only. -/
inductive SourcePage (Raw : Type) : Type where
  | audit (page : AuditPage Raw) (totalRows : Option ℕ)
  | graphAudit (scope : GraphAuditScope) (skipToken : Option JsString)
      (value : List (GraphElement Raw))
  | googleVault (matterId : AuditScopeKey) (exports : List (VaultExport Raw))

/-- `fetchAuditPage` -/
def SourcePage.batches : SourcePage Raw → List (CountedBatch Raw)
  | .audit (.googleReports application cursor items) _ =>
    [⟨fetchReportsPage application.text cursor items, some items.length⟩]
  | .audit (.dropboxTeamLog scopeKey page) _ =>
    [⟨mapTeamLogPage page scopeKey.text, some page.events.length⟩]
  | .audit (.googleBigqueryGmail table cursor page) totalRows =>
    [⟨fetchGmailLogPage table.text cursor page, totalRows⟩]
  | .audit (.o365ManagementActivity contentType list) _ =>
    (fetchContentPage contentType.text list).map fun batch => ⟨batch, some batch.records.length⟩
  | .graphAudit scope skipToken value => [fetchGraphAuditPage scope skipToken value]
  | .googleVault matterId exports => fetchVaultPage matterId.text exports

/-- The records the provider reported on a page. -/
def SourcePage.elements : SourcePage Raw → List Raw
  | .audit page _ => page.elements
  | .graphAudit _ _ value => value.map GraphElement.raw
  | .googleVault _ exports => exports.map VaultExport.raw

/-- A scope of a collection. -/
structure AuditScope where
  system : AuditSystem
  scopeKey : AuditScopeKey
  deriving DecidableEq

/-- The scope a page belongs to. -/
def SourcePage.scope : SourcePage Raw → AuditScope
  | .audit (.googleReports application _ _) _ => ⟨.googleReports, application⟩
  | .audit (.dropboxTeamLog scopeKey _) _ => ⟨.dropboxTeamLog, scopeKey⟩
  | .audit (.googleBigqueryGmail table _ _) _ => ⟨.googleBigqueryGmail, table⟩
  | .audit (.o365ManagementActivity contentType _) _ => ⟨.o365ManagementActivity, contentType⟩
  | .graphAudit scope _ _ => ⟨scope.system, scope.key⟩
  | .googleVault matterId _ => ⟨.googleVault, matterId⟩

/-! ## Exceptions -/

/-- A row of `CollectionException` about the numbers of a batch. -/
structure CountException where
  providerItemId : JsString
  reported : ℕ
  observed : ℕ
  system : AuditSystem
  deriving DecidableEq

/-- The message of an exception. -/
def CountException.message (row : CountException) : JsString :=
  js "provider reported " ++ decimal row.reported ++ js " audit record(s) but " ++
    decimal row.observed ++ js " were observed"

/-- The exception about a batch, if there is one. -/
def CountedBatch.gap (batch : CountedBatch Raw) : Option CountException :=
  (batch.providerReportedCount.filter fun reported => reported ≠ batch.records.length).map
    fun reported => ⟨batch.providerItemId, reported, batch.records.length, batch.system⟩

/-- The tables of one collection. -/
structure CountTables (Raw : Type) extends AuditTables Raw where
  exceptions : List CountException

/-- A round of the loop of `processAuditFetchPage` -/
def commitCounted (tables : CountTables Raw) (batch : CountedBatch Raw) : CountTables Raw :=
  if batch.providerItemId ∈ tables.items then tables
  else ⟨commitBatch tables.toAuditTables batch.toAuditBatch,
    tables.exceptions ++ batch.gap.toList⟩

/-- The transaction of `processAuditFetchPage`, of which every page has one. -/
def commitSourcePage (tables : CountTables Raw) (page : SourcePage Raw) : CountTables Raw :=
  page.batches.foldl commitCounted tables

/-- The tables after the pages of a collection, of whatever scopes and in whatever order. -/
def commitSourcePages (pages : List (SourcePage Raw)) : CountTables Raw :=
  pages.foldl commitSourcePage ⟨⟨[], []⟩, []⟩

/-- An exception about a batch of this scope. -/
def CountException.Of (row : CountException) (scope : AuditScope) : Prop :=
  ∃ batchId, row.providerItemId =
    scope.system.text ++ js "/" ++ scope.scopeKey.text ++ js "/" ++ batchId

/-- An exception is recorded for the scope. -/
def Recorded (pages : List (SourcePage Raw)) (scope : AuditScope) : Prop :=
  ∃ row ∈ (commitSourcePages pages).exceptions, row.Of scope

/-- What is reported on a page is stored if its transaction adds just that. -/
def StoredAfter (before : List (SourcePage Raw)) (page : SourcePage Raw) : Prop :=
  (commitSourcePages (before ++ [page])).rows.map AuditRecordRaw.raw =
    (commitSourcePages before).rows.map AuditRecordRaw.raw ++ page.elements

/-- Something that is reported on a page of the scope is not stored. -/
def Unstored (pages : List (SourcePage Raw)) (scope : AuditScope) : Prop :=
  ∃ before page after, pages = before ++ page :: after ∧ page.scope = scope ∧
    ¬ StoredAfter before page

/-- The exceptions tell which scopes miss a record, and whether any does. -/
structure Exact (pages : List (SourcePage Raw)) : Prop where
  scopes : ∀ scope, Recorded pages scope ↔ Unstored pages scope
  collection : (commitSourcePages pages).exceptions ≠ [] ↔ ∃ scope, Unstored pages scope

/-! ## What tells apart and what counts -/

/-- An event of any source. -/
inductive SourceEvent (Raw : Type) : Type where
  | audit (event : AuditEvent Raw)
  | graph (scope : GraphAuditScope) (element : GraphElement Raw)
  | vault (element : VaultExport Raw)

/-- The record of an event. -/
def SourceEvent.record : SourceEvent Raw → AuditRecordRaw Raw
  | .audit event => event.record
  | .graph scope element => graphRecord scope element
  | .vault element => vaultRecord element

/-- What is left of an event in its name. -/
inductive SourceKey : Type where
  | audit (key : EventKey)
  | graph (scope : GraphAuditScope) (id : JsString)
  | vault (id : JsString)
  deriving DecidableEq

/-- What names an event: the fields of `AuditEvent.key`, or an id of the provider's. -/
def SourceEvent.key : SourceEvent Raw → SourceKey
  | .audit event => .audit event.key
  | .graph scope element => .graph scope element.id
  | .vault element => .vault element.id

/-- What names a batch, its events, and the number that counts as reported. -/
structure Content (Raw : Type) where
  key : BatchKey
  events : List (SourceEvent Raw)
  reported : Option ℕ

/-- The number that counts as reported for so many events: that of activities, of rows of a query,
or of events. -/
def reportedOf (page : AuditPage Raw) (totalRows : Option ℕ) (events : ℕ) : Option ℕ :=
  match page with
  | .googleReports _ _ items => some items.length
  | .googleBigqueryGmail _ _ _ => totalRows
  | _ => some events

/-- The contents of a page. -/
def SourcePage.contents : SourcePage Raw → List (Content Raw)
  | .audit page totalRows => page.contents.map fun content =>
    ⟨content.1, content.2.map .audit, reportedOf page totalRows content.2.length⟩
  | .graphAudit scope skipToken value =>
    [⟨⟨scope.system, scope.key, skipToken.getD (js "initial")⟩, value.map (.graph scope),
      some value.length⟩]
  | .googleVault matterId exports => (exports.filter VaultExport.completed).map fun element =>
    ⟨⟨.googleVault, matterId, element.id⟩, [.vault element], some 1⟩

/-- The exports of a page that are still in progress. -/
def SourcePage.skipped : SourcePage Raw → List (VaultExport Raw)
  | .googleVault _ exports => exports.filter fun element => !element.completed
  | _ => []

/-- The batches that are not skipped: those with the key of no earlier one. -/
def firsts (contents : List (Content Raw)) : List (Content Raw) := insertAll Content.key [] contents

/-- After `before`, all events of a batch are stored: it is new, and so are the keys of its events,
or it has none. -/
def Kept (before : List (Content Raw)) (content : Content Raw) : Prop :=
  if content.key ∈ before.map Content.key then content.events = []
  else (content.events.map SourceEvent.key).Nodup ∧ ∀ event ∈ content.events,
    ∀ earlier ∈ firsts before, ∀ other ∈ earlier.events, other.key ≠ event.key

/-- A page of the scope has an export in progress, or a batch with an event that is not stored. -/
def Losing (pages : List (SourcePage Raw)) (scope : AuditScope) : Prop :=
  ∃ before page after, pages = before ++ page :: after ∧ page.scope = scope ∧
    (page.skipped ≠ [] ∨ ∃ earlier content later, page.contents = earlier ++ content :: later ∧
      ¬ Kept (before.flatMap SourcePage.contents ++ earlier) content)

/-- A new batch of the scope has a number of events other than what counts as reported. -/
def Miscounted (pages : List (SourcePage Raw)) (scope : AuditScope) : Prop :=
  ∃ content ∈ firsts (pages.flatMap SourcePage.contents),
    content.key.system = scope.system ∧ content.key.scopeKey = scope.scopeKey ∧
      ∃ reported ∈ content.reported, reported ≠ content.events.length

/-! ### Batches and their contents -/

/-- The records of a batch. -/
def Content.records (content : Content Raw) : List (AuditRecordRaw Raw) :=
  content.events.map SourceEvent.record

/-- The batch of some contents. -/
def Content.batch (content : Content Raw) : CountedBatch Raw where
  system := content.key.system
  batchId := content.key.batchId
  scopeKey := content.key.scopeKey.text
  records := content.records
  providerReportedCount := content.reported

/-- What is unique in a collection is the key of an event, for all sources. -/
theorem sourceIdentity_eq_iff {event other : SourceEvent Raw} :
    event.record.identity = other.record.identity ↔ event.key = other.key := by
  have haudit : ∀ event : AuditEvent Raw, event.record.system ≠ .googleVault ∧
      ∀ scope : GraphAuditScope, event.record.system ≠ scope.system := by
    intro event
    refine ⟨?_, fun scope => ?_⟩
    · cases event <;> exact fun h => nomatch h
    · cases event <;> cases scope <;> exact fun h => nomatch h
  have hsystem : ∀ {x y : AuditRecordRaw Raw}, x.identity = y.identity → x.system = y.system :=
    fun h => congrArg Prod.fst h
  cases event with
  | audit event =>
    cases other with
    | audit other =>
      rw [SourceEvent.key, SourceEvent.key, SourceKey.audit.injEq]
      exact identity_eq_iff
    | graph scope element =>
      exact iff_of_false (fun h => (haudit event).2 scope (hsystem h)) (by rintro ⟨⟩)
    | vault element => exact iff_of_false (fun h => (haudit event).1 (hsystem h)) (by rintro ⟨⟩)
  | graph scope element =>
    cases other with
    | audit other =>
      exact iff_of_false (fun h => (haudit other).2 scope (hsystem h).symm) (by rintro ⟨⟩)
    | graph scope' element' =>
      cases scope <;> cases scope' <;>
        simp [SourceEvent.key, SourceEvent.record, graphRecord, AuditRecordRaw.identity,
          GraphAuditScope.system]
    | vault element' =>
      refine iff_of_false (fun h => ?_) (by rintro ⟨⟩)
      have hscope := hsystem h
      cases scope <;> cases hscope
  | vault element =>
    cases other with
    | audit other => exact iff_of_false (fun h => (haudit other).1 (hsystem h).symm) (by rintro ⟨⟩)
    | graph scope element' =>
      refine iff_of_false (fun h => ?_) (by rintro ⟨⟩)
      have hscope := hsystem h
      cases scope <;> cases hscope
    | vault element' =>
      simp [SourceEvent.key, SourceEvent.record, vaultRecord, AuditRecordRaw.identity]

/-- The batches of a page are made of its contents. -/
theorem sourceBatches_eq (page : SourcePage Raw) :
    page.batches = page.contents.map Content.batch := by
  cases page with
  | audit page totalRows =>
    have hbatches := batches_eq page
    have hrecords : ∀ events : List (AuditEvent Raw),
        (events.map SourceEvent.audit).map SourceEvent.record = events.map AuditEvent.record :=
      fun events => List.map_map
    cases page with
    | googleReports application cursor items | googleBigqueryGmail table cursor page =>
      simp only [AuditPage.batches, AuditPage.contents, List.map_singleton] at hbatches
      simp only [SourcePage.batches, SourcePage.contents, AuditPage.contents, List.map_singleton,
        List.singleton_inj.mp hbatches, Content.batch, Content.records, hrecords, batchOf,
        reportedOf]
    | dropboxTeamLog scopeKey page =>
      simp only [AuditPage.batches, AuditPage.contents, List.map_singleton] at hbatches
      simp only [SourcePage.batches, SourcePage.contents, AuditPage.contents, List.map_singleton,
        List.singleton_inj.mp hbatches, Content.batch, Content.records, hrecords, batchOf,
        reportedOf, List.length_mapIdx]
    | o365ManagementActivity contentType list =>
      simp only [AuditPage.batches] at hbatches
      simp only [SourcePage.batches, SourcePage.contents, hbatches, List.map_map]
      refine List.map_congr_left fun content _ => ?_
      simp only [Function.comp_apply, Content.batch, Content.records, hrecords, batchOf,
        reportedOf, List.length_map]
  | graphAudit scope skipToken value =>
    cases scope <;>
      simp [SourcePage.batches, SourcePage.contents, fetchGraphAuditPage, Content.batch,
        Content.records, BatchKey.batchId, GraphAuditScope.system, SourceEvent.record]
  | googleVault matterId exports =>
    simp only [SourcePage.batches, SourcePage.contents, fetchVaultPage, List.map_map]
    rfl

/-- The records of some batches. -/
def sourceRecords (contents : List (Content Raw)) : List (AuditRecordRaw Raw) :=
  contents.flatMap Content.records

/-- What is reported are the elements of the records, and the exports in progress. -/
theorem elements_of_skipped (page : SourcePage Raw) :
    page.elements.length = (sourceRecords page.contents).length + page.skipped.length ∧
      (page.skipped = [] →
        page.elements = (sourceRecords page.contents).map AuditRecordRaw.raw) := by
  cases page with
  | audit page totalRows =>
    have helements : page.elements =
        (sourceRecords (SourcePage.audit page totalRows).contents).map AuditRecordRaw.raw := by
      rw [elements_eq, sourceRecords, List.map_flatMap, SourcePage.contents, List.flatMap_map]
      refine List.flatMap_congr fun content _ => ?_
      rw [Content.records, List.map_map, List.map_map]
      rfl
    refine ⟨?_, fun _ => helements⟩
    rw [SourcePage.elements, helements, List.length_map]
    rfl
  | graphAudit scope skipToken value =>
    have helements : value.map GraphElement.raw =
        (sourceRecords (SourcePage.graphAudit scope skipToken value).contents).map
          AuditRecordRaw.raw := by
      rw [sourceRecords, SourcePage.contents, List.flatMap_singleton, Content.records, List.map_map,
        List.map_map]
      rfl
    refine ⟨?_, fun _ => helements⟩
    rw [SourcePage.elements, helements, List.length_map]
    rfl
  | googleVault matterId exports =>
    have hrecords : sourceRecords (SourcePage.googleVault matterId exports).contents =
        (exports.filter VaultExport.completed).map vaultRecord := by
      rw [sourceRecords, SourcePage.contents, List.flatMap_map]
      exact List.flatMap_pure_eq_map _ _
    rw [hrecords, SourcePage.elements, SourcePage.skipped]
    refine ⟨?_, fun hskipped => ?_⟩
    · have hlength := List.length_eq_length_filter_add (l := exports) VaultExport.completed
      rw [List.length_map, List.length_map, hlength]
    · have hall : exports.filter VaultExport.completed = exports := by
        refine List.filter_eq_self.mpr fun element helement => ?_
        have hnot := List.filter_eq_nil_iff.mp hskipped element helement
        simpa using hnot
      rw [hall, List.map_map]
      rfl

/-! ### All batches -/

/-- The tables after some batches. -/
def tablesOf (contents : List (Content Raw)) : CountTables Raw :=
  (contents.map Content.batch).foldl commitCounted ⟨⟨[], []⟩, []⟩

theorem commitSourcePages_eq (pages : List (SourcePage Raw)) :
    commitSourcePages pages = tablesOf (pages.flatMap SourcePage.contents) := by
  rw [tablesOf, List.map_flatMap, commitSourcePages, List.foldl_flatMap]
  simp only [← sourceBatches_eq]
  rfl

theorem tablesOf_concat (contents : List (Content Raw)) (last : Content Raw) :
    tablesOf (contents ++ [last]) = commitCounted (tablesOf contents) last.batch := by
  rw [tablesOf, List.map_append, List.foldl_append]
  rfl

/-- A batch has the item of another exactly if it has its key. -/
theorem providerItemId_batch_iff {content other : Content Raw} :
    content.batch.providerItemId = other.batch.providerItemId ↔ content.key = other.key :=
  @providerItemId_batchOf_iff Raw (content.key, []) (other.key, [])

theorem firsts_concat (contents : List (Content Raw)) (last : Content Raw) :
    firsts (contents ++ [last]) = if last.key ∈ contents.map Content.key then firsts contents
      else firsts contents ++ [last] := by
  have hmem : last.key ∈ (firsts contents).map Content.key ↔
      last.key ∈ contents.map Content.key := by
    rw [firsts, UniqueRows.mem_map_insertAll]
    simp
  rw [firsts, UniqueRows.insertAll_append, UniqueRows.insertAll_cons, UniqueRows.insertAll_nil,
    UniqueRows.insertNew]
  exact if_congr hmem rfl rfl

/-- **The tables after some batches**: their items, the records of those that are not skipped, and
the exceptions about these. -/
theorem tablesOf_spec (contents : List (Content Raw)) :
    (∀ other : Content Raw, other.batch.providerItemId ∈ (tablesOf contents).items ↔
      other.key ∈ contents.map Content.key) ∧
    (tablesOf contents).rows =
      insertAll AuditRecordRaw.identity [] (sourceRecords (firsts contents)) ∧
    (tablesOf contents).exceptions =
      (firsts contents).filterMap fun content => content.batch.gap := by
  induction contents using List.reverseRecOn with
  | nil => exact ⟨fun other => by simp [tablesOf], rfl, rfl⟩
  | append_singleton contents last ih =>
    obtain ⟨hitems, hrows, hexceptions⟩ := ih
    rw [tablesOf_concat, commitCounted, firsts_concat]
    by_cases hlast : last.key ∈ contents.map Content.key
    · rw [if_pos ((hitems last).mpr hlast), if_pos hlast]
      refine ⟨fun other => ?_, hrows, hexceptions⟩
      rw [hitems, List.map_append, List.mem_append, List.map_singleton, List.mem_singleton]
      refine ⟨.inl, ?_⟩
      rintro (h | h)
      · exact h
      · exact h ▸ hlast
    · have hnew : last.batch.providerItemId ∉ (tablesOf contents).items :=
        fun h => hlast ((hitems last).mp h)
      rw [if_neg hnew, if_neg hlast, commitBatch_eq, if_neg hnew]
      refine ⟨fun other => ?_, ?_, ?_⟩
      · rw [List.mem_append, hitems, List.mem_singleton, providerItemId_batch_iff, List.map_append,
          List.mem_append, List.map_singleton, List.mem_singleton]
      · rw [hrows, sourceRecords, sourceRecords, List.flatMap_append, List.flatMap_singleton,
          UniqueRows.insertAll_append]
        rfl
      · rw [hexceptions, List.filterMap_append]
        cases h : last.batch.gap <;> simp [h]

/-- **All records of a batch are stored** exactly if it is kept. -/
theorem rows_concat_iff (before : List (Content Raw)) (content : Content Raw) :
    (tablesOf (before ++ [content])).rows = (tablesOf before).rows ++ content.records ↔
      Kept before content := by
  have hitems := (tablesOf_spec before).1 content
  rw [tablesOf_concat, commitCounted, Kept]
  by_cases hkey : content.key ∈ before.map Content.key
  · rw [if_pos (hitems.mpr hkey), if_pos hkey, List.self_eq_append_right, Content.records,
      List.map_eq_nil_iff]
  · have hnew : content.batch.providerItemId ∉ (tablesOf before).items :=
      fun h => hkey (hitems.mp h)
    rw [if_neg hnew, if_neg hkey, commitBatch_eq, if_neg hnew]
    -- the names of the rows are those of the records that were not skipped
    have hrows : ∀ identity, identity ∈ (tablesOf before).rows.map AuditRecordRaw.identity ↔
        ∃ earlier ∈ firsts before, ∃ other ∈ earlier.events, other.record.identity = identity := by
      intro identity
      rw [(tablesOf_spec before).2.1, UniqueRows.mem_map_insertAll, sourceRecords]
      simp only [List.map_nil, List.not_mem_nil, false_or, List.mem_map, List.mem_flatMap,
        Content.records]
      refine ⟨?_, ?_⟩
      · rintro ⟨_, ⟨earlier, hearlier, other, hother, rfl⟩, rfl⟩
        exact ⟨earlier, hearlier, other, hother, rfl⟩
      · rintro ⟨earlier, hearlier, other, hother, rfl⟩
        exact ⟨_, ⟨earlier, hearlier, other, hother, rfl⟩, rfl⟩
    rw [show content.batch.records = content.records from rfl,
      UniqueRows.insertAll_eq_append_iff]
    refine and_congr ?_ ?_
    · rw [Content.records, List.map_map, List.Nodup, List.pairwise_map, List.Nodup,
        List.pairwise_map]
      simp only [Function.comp_apply, ne_eq, sourceIdentity_eq_iff]
    · simp only [hrows, Content.records, List.forall_mem_map, sourceIdentity_eq_iff, not_exists,
        not_and, ne_eq]

/-- The rows are some of the records. -/
theorem rows_append (before contents : List (Content Raw)) : ∃ taken : List (AuditRecordRaw Raw),
    taken.Sublist (sourceRecords contents) ∧
      (tablesOf (before ++ contents)).rows = (tablesOf before).rows ++ taken := by
  induction contents using List.reverseRecOn with
  | nil => exact ⟨[], List.Sublist.refl _, by simp⟩
  | append_singleton contents last ih =>
    obtain ⟨taken, hsub, heq⟩ := ih
    rw [← List.append_assoc, tablesOf_concat, commitCounted, sourceRecords, List.flatMap_append,
      List.flatMap_singleton, ← sourceRecords]
    split_ifs with hlast
    · exact ⟨taken, hsub.trans (List.sublist_append_left _ _), heq⟩
    · obtain ⟨more, hmore, hrows⟩ := UniqueRows.insertAll_eq_append AuditRecordRaw.identity
        (tablesOf (before ++ contents)).rows last.batch.records
      refine ⟨taken ++ more, hsub.append hmore, ?_⟩
      rw [commitBatch_eq, if_neg hlast, ← List.append_assoc, ← heq]
      exact hrows

/-- All records of some batches are stored exactly if every batch is kept. -/
theorem rows_append_iff (before contents : List (Content Raw)) :
    (tablesOf (before ++ contents)).rows = (tablesOf before).rows ++ sourceRecords contents ↔
      ∀ earlier content later, contents = earlier ++ content :: later →
        Kept (before ++ earlier) content := by
  induction contents using List.reverseRecOn with
  | nil => simp [sourceRecords]
  | append_singleton contents last ih =>
    obtain ⟨taken, hsub, heq⟩ := rows_append before contents
    obtain ⟨more, hmore, hlast⟩ := rows_append (before ++ contents) [last]
    have hrecords : sourceRecords [last] = last.records := List.flatMap_singleton _ _
    have hsplit : sourceRecords (contents ++ [last]) = sourceRecords contents ++ last.records := by
      rw [sourceRecords, List.flatMap_append, List.flatMap_singleton, ← sourceRecords]
    rw [hrecords] at hmore
    -- the last batch is kept exactly if all of it is new, and so for those before it
    rw [← List.append_assoc, hlast, heq, List.append_assoc, List.append_cancel_left_eq, hsplit,
      UniqueRows.append_eq_append_iff_of_sublist hsub hmore]
    have hbefore : taken = sourceRecords contents ↔ ∀ earlier content later,
        contents = earlier ++ content :: later → Kept (before ++ earlier) content := by
      rw [← ih, heq, List.append_cancel_left_eq]
    have hkept : more = last.records ↔ Kept (before ++ contents) last := by
      rw [← rows_concat_iff, hlast, List.append_cancel_left_eq]
    rw [hbefore, hkept]
    refine ⟨?_, ?_⟩
    · rintro ⟨hall, hend⟩ earlier content later hsplit
      rcases List.eq_nil_or_concat later with rfl | ⟨later, last', rfl⟩
      · obtain ⟨rfl, heq⟩ := List.append_inj' hsplit rfl
        obtain rfl := List.singleton_inj.mp heq
        exact hend
      · rw [List.concat_eq_append, ← List.cons_append, ← List.append_assoc] at hsplit
        obtain ⟨rfl, -⟩ := List.append_inj' hsplit rfl
        exact hall earlier content later rfl
    · intro hall
      refine ⟨fun earlier content later hsplit => hall earlier content (later ++ [last]) ?_,
        hall contents last [] rfl⟩
      rw [hsplit, List.append_assoc, List.cons_append]

/-- What is reported on a page is stored exactly if no export is in progress and every batch is
kept. -/
theorem storedAfter_iff (before : List (SourcePage Raw)) (page : SourcePage Raw) :
    StoredAfter before page ↔ page.skipped = [] ∧
      ∀ earlier content later, page.contents = earlier ++ content :: later →
        Kept (before.flatMap SourcePage.contents ++ earlier) content := by
  obtain ⟨taken, hsub, heq⟩ := rows_append (before.flatMap SourcePage.contents) page.contents
  obtain ⟨hlength, helements⟩ := elements_of_skipped page
  rw [← rows_append_iff, heq, List.append_cancel_left_eq, StoredAfter, commitSourcePages_eq,
    commitSourcePages_eq, List.flatMap_append, List.flatMap_singleton, heq, List.map_append,
    List.append_cancel_left_eq]
  refine ⟨?_, ?_⟩
  · intro hstored
    have hle := hsub.length_le
    have hcount := congrArg List.length hstored
    rw [List.length_map] at hcount
    refine ⟨List.length_eq_zero_iff.mp (by omega), hsub.eq_of_length (by omega)⟩
  · rintro ⟨hskipped, rfl⟩
    exact (helements hskipped).symm

/-- **Which scopes miss a record.** -/
theorem unstored_iff (pages : List (SourcePage Raw)) (scope : AuditScope) :
    Unstored pages scope ↔ Losing pages scope := by
  simp only [Unstored, Losing, storedAfter_iff, not_and_or, not_forall, exists_prop]

/-- The exception about a batch has the number that counts as reported. -/
theorem gap_batch_eq_some {content : Content Raw} {row : CountException} :
    content.batch.gap = some row ↔ ∃ reported ∈ content.reported,
      reported ≠ content.events.length ∧ row =
        ⟨content.batch.providerItemId, reported, content.events.length, content.key.system⟩ := by
  have hlength : content.batch.records.length = content.events.length := List.length_map _
  rw [CountedBatch.gap, hlength, Option.map_eq_some_iff]
  simp only [Option.filter_eq_some_iff, decide_eq_true_eq, Content.batch, Option.mem_def]
  refine ⟨?_, ?_⟩
  · rintro ⟨reported, ⟨hreported, hne⟩, rfl⟩
    exact ⟨reported, hreported, hne, rfl⟩
  · rintro ⟨reported, hreported, hne, rfl⟩
    exact ⟨reported, ⟨hreported, hne⟩, rfl⟩

/-- An exception is of the scope of its batch. -/
theorem of_iff {content : Content Raw} {row : CountException} {scope : AuditScope}
    (h : row.providerItemId = content.batch.providerItemId) :
    row.Of scope ↔ content.key.system = scope.system ∧ content.key.scopeKey = scope.scopeKey := by
  have hid : row.providerItemId = content.key.system.text ++ js "/" ++ content.key.scopeKey.text ++
      js "/" ++ content.key.batchId := h
  rw [CountException.Of, hid]
  refine ⟨?_, ?_⟩
  · rintro ⟨batchId, h⟩
    rw [List.append_assoc _ content.key.scopeKey.text, List.append_assoc _ (_ ++ _),
      List.append_assoc _ scope.scopeKey.text, List.append_assoc _ (_ ++ _)] at h
    obtain ⟨hsystem, h⟩ := slash_inj content.key.system.slash_not_mem scope.system.slash_not_mem h
    obtain ⟨hscope, -⟩ := slash_inj content.key.scopeKey.no_slash scope.scopeKey.no_slash h
    refine ⟨AuditSystem.text_injective hsystem, ?_⟩
    cases hcontent : content.key.scopeKey
    cases hother : scope.scopeKey
    rw [hcontent, hother] at hscope
    congr
  · rintro ⟨hsystem, hscope⟩
    exact ⟨content.key.batchId, by rw [hsystem, hscope]⟩

/-- **Which scopes have an exception.** -/
theorem recorded_iff (pages : List (SourcePage Raw)) (scope : AuditScope) :
    Recorded pages scope ↔ Miscounted pages scope := by
  rw [Recorded, commitSourcePages_eq, (tablesOf_spec _).2.2, Miscounted]
  simp only [List.mem_filterMap, gap_batch_eq_some]
  refine ⟨?_, ?_⟩
  · rintro ⟨row, ⟨content, hcontent, reported, hreported, hne, rfl⟩, hof⟩
    obtain ⟨hsystem, hscope⟩ := (of_iff rfl).mp hof
    exact ⟨content, hcontent, hsystem, hscope, reported, hreported, hne⟩
  · rintro ⟨content, hcontent, hsystem, hscope, reported, hreported, hne⟩
    exact ⟨_, ⟨content, hcontent, reported, hreported, hne, rfl⟩,
      (of_iff rfl).mpr ⟨hsystem, hscope⟩⟩

/-- Every exception is of some scope. -/
theorem exceptions_ne_nil_iff (pages : List (SourcePage Raw)) :
    (commitSourcePages pages).exceptions ≠ [] ↔ ∃ scope, Recorded pages scope := by
  refine ⟨?_, ?_⟩
  · intro h
    obtain ⟨row, hrow⟩ := List.exists_mem_of_ne_nil _ h
    have hmem := hrow
    rw [commitSourcePages_eq, (tablesOf_spec _).2.2] at hmem
    obtain ⟨content, -, hgap⟩ := List.mem_filterMap.mp hmem
    obtain ⟨reported, -, -, rfl⟩ := gap_batch_eq_some.mp hgap
    exact ⟨⟨content.key.system, content.key.scopeKey⟩, _, hrow, (of_iff rfl).mpr ⟨rfl, rfl⟩⟩
  · rintro ⟨scope, row, hrow, -⟩
    exact List.ne_nil_of_mem hrow

/-- **Exceptions about numbers are exact** for the collections where a scope has a batch with a
number of events other than what counts as reported exactly if it loses an event. -/
theorem exact_iff (pages : List (SourcePage Raw)) :
    Exact pages ↔ ∀ scope, Miscounted pages scope ↔ Losing pages scope := by
  simp only [← recorded_iff, ← unstored_iff]
  refine ⟨Exact.scopes, fun h => ⟨h, ?_⟩⟩
  rw [exceptions_ne_nil_iff]
  exact exists_congr h

end Gaps

/-! ### Nothing is lost, and there is an exception -/

theorem drive_no_slash : unitOf '/' ∉ js "drive" := by decide

/-- A page of one activity that has two events. -/
def twoEvents : SourcePage ℕ :=
  .audit (.googleReports ⟨js "drive", drive_no_slash⟩ none
    [⟨some (js "358068855354"), some (js "2024-03-01T09:30:00.000Z"), [1, 2]⟩]) none

/-- Both events are stored, and the exception says that one was reported and two were observed. -/
theorem twoEvents_not_exact : ¬ Exact [twoEvents] := by
  intro h
  have hrecorded : Recorded [twoEvents] twoEvents.scope := by
    refine ⟨⟨js "google_reports/drive/drive:initial", 1, 2, .googleReports⟩, ?_,
      js "drive:initial", ?_⟩ <;> decide +kernel
  obtain ⟨before, page, after, hsplit, -, hstored⟩ := (h.scopes _).mp hrecorded
  -- there is just the one page
  obtain ⟨rfl, rfl, -⟩ : before = [] ∧ page = twoEvents ∧ after = [] := by
    cases before with
    | nil => simpa [eq_comm] using hsplit
    | cons first rest => simp at hsplit
  exact hstored (show _ = _ by decide +kernel)

/-- Two pages of the team log, each with an event of the same time: the second event is lost, and
nothing says so. -/
def sameTime : List (SourcePage ℕ) :=
  [.audit (.dropboxTeamLog ⟨js "team_events", team_events_no_slash⟩
      ⟨[⟨some (js "2024-03-01T09:30:00Z"), 1⟩], js "c1"⟩) none,
    .audit (.dropboxTeamLog ⟨js "team_events", team_events_no_slash⟩
      ⟨[⟨some (js "2024-03-01T09:30:00Z"), 2⟩], js "c2"⟩) none]

example : (commitSourcePages sameTime).rows.map AuditRecordRaw.raw = [1] ∧
    (commitSourcePages sameTime).exceptions = [] := by decide +kernel

end AegCloudDfir.Collection.AuditGaps
