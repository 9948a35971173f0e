import AegCloudDfir.Families.Expansion
import AegCloudDfir.Search.Authorization
import AegCloudDfir.Search.Convergence
import AegCloudDfir.Search.Exact
import AegCloudDfir.Tenant.Invites

/-!
# Finding an item and opening it

Two rules say whether a caller may see an item. A search goes to the index, with filters over the
documents that `buildSearchAuth` (`apps/api/src/search/search.service.ts`) asks for. Whatever opens
an item goes to the database, by `requireItem` (`apps/api/src/evidence/evidence.service.ts`); so
does the list of its family, which has filters of its own. They differ about the items of an import:
the index knows the cases that an item is in, the database asks for those that its import is
attached to.

* `State` — the rows of a tenant, and the documents that are made of them.
* `finds_iff`, `admits_iff` — the two rules, over the rows.
* `exists_listed_iff` — whom the list of a family names.
* `oneRule_iff` — when the rules agree.
-/

namespace AegCloudDfir.Search.Access

open Families (Batching)
open Production (EvidenceKind RelationshipKind)
open Tenant.Invites (TenantRole)

/-! ## Rows -/

/-- A row of `case_members` -/
structure CaseMember where
  caseId : JsString
  membershipId : JsString
  deriving DecidableEq

/-- A row of `case_items` -/
structure CaseItem where
  caseId : JsString
  evidenceItemId : JsString
  deriving DecidableEq

/-- A row of `tag_assignments` -/
structure TagAssignment where
  tagId : JsString
  evidenceItemId : JsString
  deriving DecidableEq

/-- A row of `forensic_imports` -/
structure ForensicImport where
  id : JsString
  createdById : JsString
  deriving DecidableEq

/-- A row of `import_cases` -/
structure ImportCase where
  importId : JsString
  caseId : JsString
  deriving DecidableEq

/-- A row of `evidence_relationships` -/
structure EvidenceRelationship where
  parentId : JsString
  childId : JsString
  kind : RelationshipKind
  detail : JsString
  deriving DecidableEq

/-- The other end of a relationship: `otherIdOf` -/
def EvidenceRelationship.otherIdOf (rel : EvidenceRelationship) (id : JsString) : JsString :=
  if rel.parentId = id then rel.childId else rel.parentId

/-- The rows of a tenant. -/
structure State where
  tenantId : JsString
  items : List ItemRows
  cases : List JsString
  caseMembers : List CaseMember
  caseItems : List CaseItem
  tags : List TagRow
  tagAssignments : List TagAssignment
  imports : List ForensicImport
  importCases : List ImportCase
  relationships : List EvidenceRelationship
  tenantId_ne : tenantId ≠ []
  nodup_items : (items.map ItemRows.id).Nodup
  /-- an item refers to an import that exists -/
  imported : ∀ item ∈ items, ∀ importId ∈ item.importId, importId ∈ imports.map ForensicImport.id
  /-- a relationship refers to items that exist -/
  related : ∀ rel ∈ relationships,
    rel.parentId ∈ items.map ItemRows.id ∧ rel.childId ∈ items.map ItemRows.id

/-- `AuthContext` of a request, in the tenant -/
structure Caller where
  userId : JsString
  membershipId : JsString
  roles : List TenantRole
  deriving DecidableEq

/-- What a request fails with. -/
inductive HttpError : Type where
  | notFound
  /-- a message, with a position or with violations -/
  | badRequest (message : JsString) (position : Option ℕ) (violations : Option (List JsString))
  deriving DecidableEq

namespace State

variable (s : State)

/-- The tag of an assignment. -/
def tagOf (assignment : TagAssignment) : Option TagRow :=
  s.tags.find? fun tag => tag.id = assignment.tagId

/-- The tags of an item. -/
def tagsOf (evidenceItemId : JsString) : List TagRow :=
  (s.tagAssignments.filter fun a => a.evidenceItemId = evidenceItemId).filterMap s.tagOf

/-- The cases an item is in. -/
def casesOf (evidenceItemId : JsString) : List JsString :=
  (s.caseItems.filter fun c => c.evidenceItemId = evidenceItemId).map CaseItem.caseId

/-- `forensicImport` of an item -/
def importOf (item : ItemRows) : Option ForensicImport :=
  item.importId.bind fun importId => s.imports.find? fun row => row.id = importId

/-- The rows that `processSearchIndex` reads of an item. -/
def rowsOf (item : ItemRows) : ItemRows :=
  { item with
    tags := s.tagsOf item.id
    caseItems := s.casesOf item.id
    importOwnerId := (s.importOf item).map ForensicImport.createdById }

/-- The document of an item, made at some time of its rows and texts. -/
def doc (fetch : JsString → ℕ → Option JsString) (now : ℤ) (item : ItemRows) : EvidenceSearchDoc :=
  itemDoc fetch s.tenantId now (s.rowsOf item)

/-- `findFirst` of an item -/
def findItem (id : JsString) : Option ItemRows := s.items.find? fun item => item.id = id

end State

/-! ## Roles -/

/-- `TENANT_WIDE_READ_ROLES` -/
def tenantWideReadRoles : List TenantRole :=
  [.orgAdmin, .caseManager, .reviewer, .productionManager]

/-- `isCaseRestricted` -/
def isCaseRestricted (caller : Caller) : Bool :=
  .readOnly ∈ caller.roles && !(caller.roles.any fun role => role ∈ tenantWideReadRoles)

/-- `mayViewPrivileged` -/
def mayViewPrivileged (caller : Caller) : Bool :=
  caller.roles.any fun role => role = .caseManager || role = .orgAdmin || role = .productionManager

/-- `mayReadImport` -/
def mayReadImport (caller : Caller) (createdById : JsString) (assignedCaseMember : Bool) : Bool :=
  caller.userId = createdById || .orgAdmin ∈ caller.roles || assignedCaseMember

/-! ## Searching -/

section Rules

variable (s : State) (caller : Caller)

/-- `memberCaseIds` -/
def memberCaseIds : List JsString :=
  (s.caseMembers.filter fun m => m.membershipId = caller.membershipId).map CaseMember.caseId

/-- `buildSearchAuth` -/
def buildSearchAuth (caseId : Option JsString) : Except HttpError AuthContext :=
  let orgAdmin : Bool := .orgAdmin ∈ caller.roles
  let memberCases := if orgAdmin then [] else memberCaseIds s caller
  let context (caseIds : Option (List JsString)) : AuthContext :=
    { tenantId := s.tenantId
      caseIds
      includePrivileged := mayViewPrivileged caller
      importAccess := if orgAdmin then none else some (caller.userId, memberCases) }
  match caseId with
  | some caseId =>
    if isCaseRestricted caller then
      if caseId ∈ memberCases then .ok (context (some [caseId])) else .error .notFound
    else if caseId ∈ s.cases then .ok (context (some [caseId]))
    else .error .notFound
  | none => .ok (context (if isCaseRestricted caller then some memberCases else none))

/-! ## Opening -/

/-- `case: { members: { some: { membershipId } } }` -/
def isMember (caseId : JsString) : Bool :=
  s.caseMembers.any fun m => m.caseId = caseId ∧ m.membershipId = caller.membershipId

/-- `tag: { isPrivileged: true }` -/
def isPrivileged (assignment : TagAssignment) : Bool := (s.tagOf assignment).any TagRow.isPrivileged

/-- `requireItem`, with what its loader finds -/
def requireItem {α : Type} (id : JsString) (loaded : Option α) : Except HttpError α :=
  let visible := s.caseItems.countP fun c => c.evidenceItemId = id ∧ isMember s caller c.caseId
  let privileged := s.tagAssignments.countP fun a => a.evidenceItemId = id ∧ isPrivileged s a
  if isCaseRestricted caller ∧ visible = 0 then .error .notFound
  else if mayViewPrivileged caller = false ∧ privileged > 0 then .error .notFound
  else
    match loaded, s.findItem id with
    | some row, some access =>
      match s.importOf access with
      | none => .ok row
      | some forensicImport =>
        let assigned := s.importCases.any fun entry =>
          entry.importId = forensicImport.id ∧ isMember s caller entry.caseId
        if mayReadImport caller forensicImport.createdById assigned then .ok row
        else .error .notFound
    | _, _ => .error .notFound

/-! ## Families -/

/-- `direction` -/
inductive Direction : Type where
  | parent
  | child
  deriving DecidableEq

/-- An entry of `family`. -/
structure FamilyEntry where
  relationship : RelationshipKind
  direction : Direction
  detail : JsString
  id : JsString
  kind : EvidenceKind
  name : JsString
  size : JsString
  sha256 : JsString
  deriving DecidableEq

/-- The batches of `FAMILY_QUERY_CHUNK`. -/
def familyBatches : Batching JsString := .ofSize Production.queryChunk Production.queryChunk_pos

/-- `hiddenIds` -/
def hiddenIds (otherIds : List JsString) : List JsString :=
  (s.tagAssignments.filter fun a => a.evidenceItemId ∈ otherIds ∧ isPrivileged s a).map
    TagAssignment.evidenceItemId

/-- `visible` -/
def visibleIds (otherIds : List JsString) : List JsString :=
  (familyBatches.batches otherIds).flatMap fun batch =>
    (s.caseItems.filter fun c => c.evidenceItemId ∈ batch ∧ isMember s caller c.caseId).map
      CaseItem.evidenceItemId

/-- The relationships of an item whose other ends `family` shows. -/
def shownRels (id : JsString) : List EvidenceRelationship :=
  let rels := s.relationships.filter fun rel => rel.parentId = id ∨ rel.childId = id
  let rels :=
    if mayViewPrivileged caller then rels
    else rels.filter fun rel => rel.otherIdOf id ∉ hiddenIds s (rels.map (·.otherIdOf id))
  if isCaseRestricted caller then
    rels.filter fun rel =>
      rel.otherIdOf id ∈ visibleIds s caller (distinct (rels.map (·.otherIdOf id)))
  else rels

/-- An entry for a relationship, with the item that is included. -/
def familyEntry (id : JsString) (rel : EvidenceRelationship) : Option FamilyEntry :=
  (s.findItem (rel.otherIdOf id)).map fun other =>
    { relationship := rel.kind
      direction := if rel.parentId = id then .child else .parent
      detail := rel.detail
      id := other.id
      kind := other.kind
      name := other.name
      size := decimal other.size
      sha256 := other.sha256 }

/-- `family` -/
def family (id : JsString) : Except HttpError (List FamilyEntry) := do
  let _ ← requireItem s caller id ((s.findItem id).map ItemRows.id)
  pure ((shownRels s caller id).filterMap (familyEntry s id))

end Rules

/-! ## What the rules say -/

section Meaning

variable (s : State) (caller : Caller)

/-- The item is in a case of the caller. -/
def Filed (id : JsString) : Prop :=
  ∃ c ∈ s.caseItems, c.evidenceItemId = id ∧ isMember s caller c.caseId = true

/-- The item has a privileged tag. -/
def Privileged (id : JsString) : Prop :=
  ∃ a ∈ s.tagAssignments, a.evidenceItemId = id ∧ isPrivileged s a = true

/-- The caller may see the item, its import aside. -/
def Passes (id : JsString) : Prop :=
  (isCaseRestricted caller = true → Filed s caller id) ∧
    (mayViewPrivileged caller = false → ¬ Privileged s id)

/-- The import is the caller's, or any is. -/
def Owns (forensicImport : ForensicImport) : Prop :=
  caller.userId = forensicImport.createdById ∨ .orgAdmin ∈ caller.roles

/-- The import is attached to a case of the caller. -/
def Attached (forensicImport : ForensicImport) : Prop :=
  ∃ entry ∈ s.importCases, entry.importId = forensicImport.id ∧
    isMember s caller entry.caseId = true

/-- The caller may see the item for its import. -/
def Readable (item : ItemRows) : Prop :=
  ∀ forensicImport ∈ s.importOf item, Owns caller forensicImport ∨ Attached s caller forensicImport

/-- `requireItem` admits the caller to the item. -/
def Admits (id : JsString) : Prop :=
  ∃ item, requireItem s caller id (s.findItem id) = .ok item

/-- A search for everything returns the item to the caller, of an index that holds the documents
of the rows. -/
def Finds {Num : Type} (rt : JsRuntime Num) (engine : Engine Num)
    (fetch : JsString → ℕ → Option JsString) (now : ℤ) (item : ItemRows) : Prop :=
  ∃ auth query, buildSearchAuth s caller none = .ok auth ∧ compile rt ⟨.matchAll⟩ auth = .ok query ∧
    query.matches engine (docScope (s.doc fetch now item)) = true

/-- **The two rules agree** for a caller: what is found is what may be opened, and what is listed
as family may be opened. -/
def OneRule {Num : Type} (rt : JsRuntime Num) (engine : Engine Num)
    (fetch : JsString → ℕ → Option JsString) (now : ℤ) : Prop :=
  (∀ item ∈ s.items, Finds s caller rt engine fetch now item ↔ Admits s caller item.id) ∧
    ∀ id entries, family s caller id = .ok entries → ∀ entry ∈ entries, Admits s caller entry.id

/-- **What it takes**: of the items of imports that are not the caller's, and that the caller might
see otherwise, those are in a case of the caller whose import is attached to one; and an item that
is related to one the caller may open is of no import that the caller may not read, unless it is
hidden otherwise. -/
structure InStep : Prop where
  filed : ∀ item ∈ s.items, Passes s caller item.id → ∀ forensicImport ∈ s.importOf item,
    ¬ Owns caller forensicImport → (Filed s caller item.id ↔ Attached s caller forensicImport)
  related : ∀ item ∈ s.items, Passes s caller item.id → Readable s caller item →
    ∀ rel ∈ s.relationships, rel.parentId = item.id ∨ rel.childId = item.id →
      ∀ other ∈ s.items, other.id = rel.otherIdOf item.id → Passes s caller other.id →
        Readable s caller other

end Meaning

/-! ## The rule of the database -/

section Opening

variable {s : State} {caller : Caller}

theorem mem_of_findItem {id : JsString} {item : ItemRows} (h : s.findItem id = some item) :
    item ∈ s.items ∧ item.id = id :=
  ⟨List.mem_of_find?_eq_some h, by simpa using List.find?_some h⟩

/-- An item is found by its id. -/
theorem findItem_eq {item : ItemRows} (h : item ∈ s.items) : s.findItem item.id = some item := by
  cases hfind : s.findItem item.id with
  | none =>
    have hnone := List.find?_eq_none.mp hfind item h
    exact absurd (decide_eq_true rfl) hnone
  | some found =>
    obtain ⟨hmem, hid⟩ := mem_of_findItem hfind
    rw [List.inj_on_of_nodup_map s.nodup_items hmem h hid]

theorem filed_iff {id : JsString} :
    (s.caseItems.countP fun c => c.evidenceItemId = id ∧ isMember s caller c.caseId) = 0 ↔
      ¬ Filed s caller id := by
  rw [List.countP_eq_zero, Filed]
  simp

theorem privileged_iff {id : JsString} :
    (s.tagAssignments.countP fun a => a.evidenceItemId = id ∧ isPrivileged s a) > 0 ↔
      Privileged s id := by
  rw [gt_iff_lt, List.countP_pos_iff, Privileged]
  simp

/-- The import of an item lets the caller in. -/
theorem mayReadImport_iff {forensicImport : ForensicImport} :
    mayReadImport caller forensicImport.createdById (s.importCases.any fun entry =>
        entry.importId = forensicImport.id ∧ isMember s caller entry.caseId) = true ↔
      Owns caller forensicImport ∨ Attached s caller forensicImport := by
  rw [mayReadImport, Bool.or_eq_true, Bool.or_eq_true, decide_eq_true_eq, decide_eq_true_eq,
    List.any_eq_true]
  simp only [decide_eq_true_eq]
  rfl

theorem readable_iff {item : ItemRows} {forensicImport : ForensicImport}
    (h : s.importOf item = some forensicImport) :
    Readable s caller item ↔ Owns caller forensicImport ∨ Attached s caller forensicImport := by
  rw [Readable, h]
  simp

/-- **Whom `requireItem` admits**, of an item that exists. -/
theorem requireItem_iff {α : Type} {item : ItemRows} (hitem : item ∈ s.items) {row row' : α} :
    requireItem s caller item.id (some row) = .ok row' ↔
      row = row' ∧ Passes s caller item.id ∧ Readable s caller item := by
  unfold requireItem
  dsimp only
  split_ifs with hrestricted hprivileged
  · refine iff_of_false (by rintro ⟨⟩) ?_
    rintro ⟨-, hpasses, -⟩
    exact filed_iff.mp hrestricted.2 (hpasses.1 hrestricted.1)
  · refine iff_of_false (by rintro ⟨⟩) ?_
    rintro ⟨-, hpasses, -⟩
    exact hpasses.2 hprivileged.1 (privileged_iff.mp hprivileged.2)
  · have hpasses : Passes s caller item.id := by
      refine ⟨?_, ?_⟩
      · intro h
        exact of_not_not fun hnot => hrestricted ⟨h, filed_iff.mpr hnot⟩
      · intro h hmem
        exact hprivileged ⟨h, privileged_iff.mpr hmem⟩
    rw [findItem_eq hitem]
    dsimp only
    cases himport : s.importOf item with
    | none =>
      have hreadable : Readable s caller item := by
        rw [Readable, himport]
        rintro forensicImport ⟨⟩
      refine ⟨fun h => ⟨Except.ok.inj h, hpasses, hreadable⟩, ?_⟩
      rintro ⟨rfl, -⟩
      rfl
    | some forensicImport =>
      rw [readable_iff himport, ← mayReadImport_iff]
      dsimp only
      split_ifs with hmay
      · refine ⟨fun h => ⟨Except.ok.inj h, hpasses, hmay⟩, ?_⟩
        rintro ⟨rfl, -⟩
        rfl
      · exact iff_of_false (by rintro ⟨⟩) fun h => hmay h.2.2

theorem admits_iff {item : ItemRows} (hitem : item ∈ s.items) :
    Admits s caller item.id ↔ Passes s caller item.id ∧ Readable s caller item := by
  rw [Admits, findItem_eq hitem]
  refine ⟨?_, fun h => ⟨item, (requireItem_iff hitem).mpr ⟨rfl, h⟩⟩⟩
  rintro ⟨row, h⟩
  exact ((requireItem_iff hitem).mp h).2

end Opening

/-! ## The rule of the index -/

section Finding

variable {s : State} {caller : Caller}

/-- A case is one of the caller's if and only if the caller is a member. -/
theorem mem_memberCaseIds {caseId : JsString} :
    caseId ∈ memberCaseIds s caller ↔ isMember s caller caseId = true := by
  rw [memberCaseIds, isMember, List.any_eq_true, List.mem_map]
  simp only [List.mem_filter, decide_eq_true_eq]
  refine ⟨?_, ?_⟩
  · rintro ⟨m, ⟨hm, hcaller⟩, rfl⟩
    exact ⟨m, hm, rfl, hcaller⟩
  · rintro ⟨m, hm, rfl, hcaller⟩
    exact ⟨m, ⟨hm, hcaller⟩, rfl⟩

/-- What access depends on in a document, beside the rest. -/
def accessDoc {Num : Type} (doc : EvidenceSearchDoc) : SearchDoc Num where
  tenantId := doc.tenantId
  caseIds := doc.caseIds.getD []
  importId := doc.importId
  importOwnerId := doc.importOwnerId
  privileged := doc.privileged
  fields := (docScope doc).values
  nested := (docScope doc).nested

theorem values_docScope {Num : Type} {doc : EvidenceSearchDoc} {path : JsString}
    (h : under doc.flags path = []) :
    (docScope doc : Scope Num).values path = (under doc.texts path).map .text := by
  change (under doc.texts path).map _ ++ (under doc.flags path).map _ = _
  rw [h, List.map_nil, List.append_nil]

/-- Where the fields that access depends on are listed. -/
theorem idxOf_accessPaths : [js "tenantId", js "importId", js "importOwnerId", js "caseIds"].map
    textPaths.idxOf = [1, 11, 12, 64] := by
  simp only [textPaths, js_eq_asciiUnits]
  decide +kernel

theorem scope_accessDoc {Num : Type} (doc : EvidenceSearchDoc) :
    (accessDoc doc : SearchDoc Num).scope = docScope doc := by
  obtain ⟨htenantId, himportId, himportOwnerId, hcaseIds⟩ :
      textPaths.idxOf (js "tenantId") = 1 ∧ textPaths.idxOf (js "importId") = 11 ∧
        textPaths.idxOf (js "importOwnerId") = 12 ∧ textPaths.idxOf (js "caseIds") = 64 := by
    simpa using idxOf_accessPaths
  have at_ {path : JsString} {i : ℕ} (hflags : path ∉ doc.flags.map Prod.fst)
      (hi : textPaths.idxOf path = i) : (docScope doc : Scope Num).values path =
        ((doc.texts[i]?.map Prod.snd).getD []).map .text := by
    rw [values_docScope (under_eq_nil hflags), under_eq_getElem (map_fst_texts doc) hi]
  have hvalues : (accessDoc doc : SearchDoc Num).scope.values = (docScope doc).values := by
    funext path
    change (if path = js "tenantId" then _ else _) = _
    split_ifs with h h h h h
    · rw [h, at_ (by rw [flags_paths]; decide) htenantId]
      rfl
    · rw [h, at_ (by rw [flags_paths]; decide) hcaseIds]
      rfl
    · rw [h, at_ (by rw [flags_paths]; decide) himportId]
      rfl
    · rw [h, at_ (by rw [flags_paths]; decide) himportOwnerId]
      rfl
    · rw [h]
      rfl
    · rfl
  change Scope.mk _ _ = Scope.mk _ _
  rw [Scope.mk.injEq]
  exact ⟨hvalues, rfl⟩

/-- A restricted caller is no administrator. -/
theorem orgAdmin_notMem (h : isCaseRestricted caller = true) : .orgAdmin ∉ caller.roles := by
  intro hadmin
  rw [isCaseRestricted, Bool.and_eq_true] at h
  have hwide : (caller.roles.any fun role => role ∈ tenantWideReadRoles) = true :=
    List.any_eq_true.mpr ⟨.orgAdmin, hadmin, by decide⟩
  rw [hwide] at h
  exact absurd h.2 (by decide)

/-- What `buildSearchAuth` asks for without a case. -/
theorem buildSearchAuth_none : ∃ auth, buildSearchAuth s caller none = .ok auth ∧
    auth.tenantId = s.tenantId ∧
    auth.caseIds =
      (if isCaseRestricted caller then some (memberCaseIds s caller) else none) ∧
    auth.includePrivileged = mayViewPrivileged caller ∧
    auth.importAccess = (if .orgAdmin ∈ caller.roles then none
      else some (caller.userId, memberCaseIds s caller)) := by
  refine ⟨_, rfl, rfl, ?_, rfl, ?_⟩
  · by_cases hrestricted : isCaseRestricted caller = true
    · rw [if_pos hrestricted, if_pos hrestricted, decide_eq_false (orgAdmin_notMem hrestricted)]
      rfl
    · rw [if_neg hrestricted, if_neg hrestricted]
  · by_cases hadmin : .orgAdmin ∈ caller.roles
    · rw [if_pos hadmin, decide_eq_true hadmin]
      rfl
    · rw [if_neg hadmin, decide_eq_false hadmin]
      rfl

section Document

variable {fetch : JsString → ℕ → Option JsString} {now : ℤ} {item : ItemRows}

/-- The privileged tags of an item are in its document. -/
theorem privileged_doc : (s.doc fetch now item).privileged = true ↔ Privileged s item.id := by
  change ((s.tagsOf item.id).map _).any EvidenceTag.privileged = true ↔ _
  rw [List.any_map, List.any_eq_true, State.tagsOf, Privileged]
  simp only [List.mem_filterMap, List.mem_filter, decide_eq_true_eq]
  refine ⟨?_, ?_⟩
  · rintro ⟨tag, ⟨a, ⟨ha, hid⟩, htag⟩, hprivileged⟩
    refine ⟨a, ha, hid, ?_⟩
    rw [isPrivileged, htag]
    exact hprivileged
  · rintro ⟨a, ha, hid, hprivileged⟩
    obtain ⟨tag, htag, hflag⟩ := (Option.any_eq_true _ _).mp hprivileged
    exact ⟨tag, ⟨a, ⟨ha, hid⟩, htag⟩, hflag⟩

/-- The cases of an item are in its document. -/
theorem mem_caseIds_doc :
    (∃ id ∈ memberCaseIds s caller, id ∈ (s.doc fetch now item).caseIds.getD []) ↔
      Filed s caller item.id := by
  have hcases : (s.doc fetch now item).caseIds.getD [] = distinct (s.casesOf item.id) :=
    getD_ifAny _
  rw [hcases, Filed, State.casesOf]
  simp only [mem_distinct, mem_memberCaseIds, List.mem_map, List.mem_filter, decide_eq_true_eq]
  refine ⟨?_, ?_⟩
  · rintro ⟨caseId, hmember, c, ⟨hc, hid⟩, rfl⟩
    exact ⟨c, hc, hid, hmember⟩
  · rintro ⟨c, hc, hid, hmember⟩
    exact ⟨c.caseId, hmember, c, ⟨hc, hid⟩, rfl⟩

/-- The import of an item, as its document has it. -/
theorem imports_doc (hitem : item ∈ s.items) :
    ((s.doc fetch now item).importId = none ∨
        (s.doc fetch now item).importOwnerId = some caller.userId ∨ Filed s caller item.id) ↔
      ∀ forensicImport ∈ s.importOf item,
        caller.userId = forensicImport.createdById ∨ Filed s caller item.id := by
  have hid : (s.doc fetch now item).importId = item.importId := rfl
  have howner : (s.doc fetch now item).importOwnerId =
      (s.importOf item).map ForensicImport.createdById := rfl
  rw [hid, howner]
  cases himport : item.importId with
  | none =>
    have hnone : s.importOf item = none := by rw [State.importOf, himport]; rfl
    rw [hnone]
    refine iff_of_true (.inl rfl) ?_
    rintro forensicImport ⟨⟩
  | some importId =>
    -- the import exists
    obtain ⟨row, hrow, hrowId⟩ := List.mem_map.mp (s.imported item hitem importId himport)
    cases hfind : s.importOf item with
    | none =>
      rw [State.importOf, himport] at hfind
      exact absurd (decide_eq_true hrowId) (List.find?_eq_none.mp hfind row hrow)
    | some forensicImport =>
      simp [eq_comm]

end Document

section Search

variable {Num : Type} {rt : JsRuntime Num} {engine : Engine Num}
  {fetch : JsString → ℕ → Option JsString} {now : ℤ} {item : ItemRows}

/-- A search for everything returns what the filters let through. -/
theorem finds_iff_authorized {auth : AuthContext}
    (hauth : buildSearchAuth s caller none = .ok auth) (htenant : auth.tenantId = s.tenantId) :
    Finds s caller rt engine fetch now item ↔
      Authorized auth (accessDoc (s.doc fetch now item) : SearchDoc Num) := by
  have hlength : auth.tenantId.length ≠ 0 := by
    rw [htenant]
    exact fun h => s.tenantId_ne (List.length_eq_zero_iff.mp h)
  have hcompile : compile rt ⟨.matchAll⟩ auth =
      .ok (.bool (authorizationFilter auth) [compileNode rt .matchAll] [] [] none) := by
    rw [compile, wrapWithAuthorization, if_neg hlength]
  have hmatches : (Dsl.bool (authorizationFilter auth) [compileNode rt .matchAll] [] []
      none).matches engine (docScope (s.doc fetch now item)) = true ↔
      Authorized auth (accessDoc (s.doc fetch now item) : SearchDoc Num) := by
    rw [← scope_accessDoc, matches_filtered, matches_authorizationFilter,
      List.forall_mem_singleton, matches_compileNode]
    exact and_iff_left trivial
  refine ⟨?_, fun h => ⟨auth, _, hauth, hcompile, hmatches.mpr h⟩⟩
  rintro ⟨auth', query, hauth', hquery, hfound⟩
  obtain rfl := Except.ok.inj (hauth.symm.trans hauth')
  obtain rfl := Except.ok.inj (hcompile.symm.trans hquery)
  exact hmatches.mp hfound

/-- **What a search returns**, of the items. -/
theorem finds_iff (hitem : item ∈ s.items) : Finds s caller rt engine fetch now item ↔
    Passes s caller item.id ∧ ∀ forensicImport ∈ s.importOf item,
      Owns caller forensicImport ∨ Filed s caller item.id := by
  obtain ⟨auth, hauth, htenant, hcases, hprivileged, himports⟩ :=
    @buildSearchAuth_none s caller
  rw [finds_iff_authorized hauth htenant]
  have hdocPrivileged := @privileged_doc s fetch now item
  have hdocImports := @imports_doc s caller fetch now item hitem
  refine ⟨?_, ?_⟩
  · intro h
    refine ⟨⟨?_, ?_⟩, ?_⟩
    · intro hrestricted
      rw [if_pos hrestricted] at hcases
      exact mem_caseIds_doc.mp (h.cases _ hcases)
    · intro hmay hmem
      have hflag := h.privilege (hprivileged.trans hmay)
      exact Bool.eq_false_iff.mp hflag (hdocPrivileged.mpr hmem)
    · intro forensicImport himport
      by_cases hadmin : .orgAdmin ∈ caller.roles
      · exact .inl (.inr hadmin)
      · rw [if_neg hadmin] at himports
        have hreach := (h.imports _ himports).imp_right (Or.imp_right mem_caseIds_doc.mp)
        exact (hdocImports.mp hreach forensicImport himport).imp_left .inl
  · rintro ⟨hpasses, hreadable⟩
    refine ⟨htenant.symm, ?_, ?_, ?_⟩
    · intro caseIds hmem
      rw [hcases] at hmem
      split_ifs at hmem with hrestricted
      · obtain rfl := Option.some.inj hmem
        exact mem_caseIds_doc.mpr (hpasses.1 hrestricted)
      · cases hmem
    · intro access hmem
      rw [himports] at hmem
      split_ifs at hmem with hadmin
      · cases hmem
      · obtain rfl := Option.some.inj hmem
        refine (hdocImports.mpr ?_).imp_right (Or.imp_right mem_caseIds_doc.mpr)
        intro forensicImport himport
        exact (hreadable forensicImport himport).imp_left fun h => h.resolve_right hadmin
    · intro hmay
      refine Bool.eq_false_iff.mpr fun hflag => ?_
      exact hpasses.2 (hprivileged.symm.trans hmay) (hdocPrivileged.mp hflag)

end Search

end Finding

/-! ## The list of a family -/

section Listing

variable {s : State} {caller : Caller} {id : JsString}

theorem mem_hiddenIds {otherIds : List JsString} {other : JsString} :
    other ∈ hiddenIds s otherIds ↔ other ∈ otherIds ∧ Privileged s other := by
  rw [hiddenIds, Privileged, List.mem_map]
  simp only [List.mem_filter, decide_eq_true_eq]
  refine ⟨?_, ?_⟩
  · rintro ⟨a, ⟨ha, hmem, hprivileged⟩, rfl⟩
    exact ⟨hmem, a, ha, rfl, hprivileged⟩
  · rintro ⟨hmem, a, ha, rfl, hprivileged⟩
    exact ⟨a, ⟨ha, hmem, hprivileged⟩, rfl⟩

theorem mem_visibleIds {otherIds : List JsString} {other : JsString} :
    other ∈ visibleIds s caller otherIds ↔ other ∈ otherIds ∧ Filed s caller other := by
  rw [visibleIds, Filed, ← @Batching.mem_iff _ familyBatches otherIds other]
  simp only [List.mem_flatMap, List.mem_map, List.mem_filter, decide_eq_true_eq]
  refine ⟨?_, ?_⟩
  · rintro ⟨batch, hbatch, c, ⟨hc, hmem, hmember⟩, rfl⟩
    exact ⟨⟨batch, hbatch, hmem⟩, c, hc, rfl, hmember⟩
  · rintro ⟨⟨batch, hbatch, hmem⟩, c, hc, rfl, hmember⟩
    exact ⟨batch, hbatch, c, ⟨hc, hmem, hmember⟩, rfl⟩

/-- Relationships stay whose other ends are not hidden. -/
theorem mem_unhidden {rels : List EvidenceRelationship} {rel : EvidenceRelationship} :
    rel ∈ (if mayViewPrivileged caller then rels
        else rels.filter fun rel => rel.otherIdOf id ∉ hiddenIds s (rels.map (·.otherIdOf id))) ↔
      rel ∈ rels ∧ (mayViewPrivileged caller = false → ¬ Privileged s (rel.otherIdOf id)) := by
  cases mayViewPrivileged caller with
  | true => simp
  | false =>
    have hother : rel ∈ rels → rel.otherIdOf id ∈ rels.map (·.otherIdOf id) :=
      fun h => List.mem_map_of_mem h
    rw [if_neg Bool.false_ne_true, List.mem_filter, decide_eq_true_eq, mem_hiddenIds]
    refine and_congr_right fun hrel => ?_
    rw [not_and, forall_prop_of_true (hother hrel), forall_prop_of_true rfl]

/-- Relationships stay whose other ends are visible. -/
theorem mem_visible {rels : List EvidenceRelationship} {rel : EvidenceRelationship} :
    rel ∈ (if isCaseRestricted caller then rels.filter fun rel =>
          rel.otherIdOf id ∈ visibleIds s caller (distinct (rels.map (·.otherIdOf id)))
        else rels) ↔
      rel ∈ rels ∧ (isCaseRestricted caller = true → Filed s caller (rel.otherIdOf id)) := by
  cases isCaseRestricted caller with
  | false => simp
  | true =>
    have hother : rel ∈ rels → rel.otherIdOf id ∈ distinct (rels.map (·.otherIdOf id)) :=
      fun h => mem_distinct.mpr (List.mem_map_of_mem h)
    rw [if_pos rfl, List.mem_filter, decide_eq_true_eq, mem_visibleIds]
    refine and_congr_right fun hrel => ?_
    rw [and_iff_right (hother hrel), forall_prop_of_true rfl]

/-- **Which relationships are shown**: those whose other end passes. -/
theorem mem_shownRels {rel : EvidenceRelationship} : rel ∈ shownRels s caller id ↔
    (rel ∈ s.relationships ∧ (rel.parentId = id ∨ rel.childId = id)) ∧
      Passes s caller (rel.otherIdOf id) := by
  rw [shownRels, mem_visible, mem_unhidden, List.mem_filter, decide_eq_true_eq, Passes, and_assoc,
    and_comm (a := _ → _)]

/-- The family of an item is listed to whom the item is opened. -/
theorem family_eq_ok {entries : List FamilyEntry} : family s caller id = .ok entries ↔
    (∃ item ∈ s.items, item.id = id ∧ Passes s caller id ∧ Readable s caller item) ∧
      entries = (shownRels s caller id).filterMap (familyEntry s id) := by
  rw [family, bind_eq_ok]
  refine ⟨?_, ?_⟩
  · rintro ⟨row, hrow, hentries⟩
    refine ⟨?_, (Except.ok.inj hentries).symm⟩
    cases hfind : s.findItem id with
    | none =>
      rw [hfind, Option.map_none] at hrow
      unfold requireItem at hrow
      dsimp only at hrow
      split_ifs at hrow
    | some item =>
      obtain ⟨hitem, rfl⟩ := mem_of_findItem hfind
      rw [hfind, Option.map_some] at hrow
      exact ⟨item, hitem, rfl, ((requireItem_iff hitem).mp hrow).2⟩
  · rintro ⟨⟨item, hitem, rfl, hadmits⟩, rfl⟩
    refine ⟨item.id, ?_, rfl⟩
    rw [findItem_eq hitem, Option.map_some]
    exact (requireItem_iff hitem).mpr ⟨rfl, hadmits⟩

/-- **Whom the list names**: the other ends of relationships that pass. -/
theorem exists_listed_iff {other : ItemRows} (hother : other ∈ s.items) :
    (∃ entry ∈ (shownRels s caller id).filterMap (familyEntry s id), entry.id = other.id) ↔
      ∃ rel ∈ s.relationships, (rel.parentId = id ∨ rel.childId = id) ∧
        other.id = rel.otherIdOf id ∧ Passes s caller other.id := by
  refine ⟨?_, ?_⟩
  · rintro ⟨entry, hentry, hid⟩
    obtain ⟨rel, hrel, hmade⟩ := List.mem_filterMap.mp hentry
    obtain ⟨item, hitem, rfl⟩ := Option.map_eq_some_iff.mp hmade
    have hsame : other.id = rel.otherIdOf id := hid.symm.trans (mem_of_findItem hitem).2
    obtain ⟨⟨hmem, htouches⟩, hpasses⟩ := mem_shownRels.mp hrel
    exact ⟨rel, hmem, htouches, hsame, hsame ▸ hpasses⟩
  · rintro ⟨rel, hmem, htouches, hsame, hpasses⟩
    have hrel : rel ∈ shownRels s caller id := mem_shownRels.mpr ⟨⟨hmem, htouches⟩, hsame ▸ hpasses⟩
    have hfind : s.findItem (rel.otherIdOf id) = some other := hsame ▸ findItem_eq hother
    obtain ⟨entry, hmade, hentryId⟩ : ∃ entry, familyEntry s id rel = some entry ∧
        entry.id = other.id := by
      rw [familyEntry, hfind]
      exact ⟨_, rfl, rfl⟩
    exact ⟨entry, List.mem_filterMap.mpr ⟨rel, hrel, hmade⟩, hentryId⟩

end Listing

/-! ## Agreement -/

section Agreement

variable {Num : Type} (rt : JsRuntime Num) (engine : Engine Num)
  (fetch : JsString → ℕ → Option JsString) (now : ℤ) (s : State) (caller : Caller)

/-- An item is found if and only if it may be opened, exactly if its import is in step. -/
theorem finds_iff_admits {item : ItemRows} (hitem : item ∈ s.items) :
    (Finds s caller rt engine fetch now item ↔ Admits s caller item.id) ↔
      (Passes s caller item.id → ∀ forensicImport ∈ s.importOf item,
        ¬ Owns caller forensicImport →
          (Filed s caller item.id ↔ Attached s caller forensicImport)) := by
  rw [finds_iff hitem, admits_iff hitem, and_congr_right_iff]
  refine imp_congr_right fun _ => ?_
  cases himport : s.importOf item with
  | none =>
    rw [Readable, himport]
    simp
  | some forensicImport =>
    rw [readable_iff himport]
    simp only [Option.mem_some_iff, forall_eq']
    tauto

/-- **The two rules agree** for a caller if and only if the items of imports are in step with their
imports. -/
theorem oneRule_iff : OneRule s caller rt engine fetch now ↔ InStep s caller := by
  refine ⟨?_, ?_⟩
  · rintro ⟨hitems, hfamilies⟩
    refine ⟨?_, ?_⟩
    · intro item hitem
      exact (finds_iff_admits rt engine fetch now s caller hitem).mp (hitems item hitem)
    · intro item hitem hpasses hreadable rel hrel htouches other hother hid hotherPasses
      have hfamily := family_eq_ok.mpr ⟨⟨item, hitem, rfl, hpasses, hreadable⟩, rfl⟩
      obtain ⟨entry, hentry, hentryId⟩ :=
        (exists_listed_iff hother).mpr ⟨rel, hrel, htouches, hid, hotherPasses⟩
      have hadmits := hfamilies item.id _ hfamily entry hentry
      rw [hentryId] at hadmits
      exact ((admits_iff hother).mp hadmits).2
  · intro h
    refine ⟨?_, ?_⟩
    · intro item hitem
      exact (finds_iff_admits rt engine fetch now s caller hitem).mpr (h.filed item hitem)
    · intro id entries hfamily entry hentry
      obtain ⟨⟨item, hitem, rfl, hpasses, hreadable⟩, rfl⟩ := family_eq_ok.mp hfamily
      -- the other end is an item
      obtain ⟨rel, -, hmade⟩ := List.mem_filterMap.mp hentry
      obtain ⟨other, hfind, rfl⟩ := Option.map_eq_some_iff.mp hmade
      have hother := (mem_of_findItem hfind).1
      obtain ⟨rel, hrel, htouches, hid, hotherPasses⟩ :=
        (exists_listed_iff hother).mp ⟨_, hentry, rfl⟩
      refine (admits_iff hother).mpr ⟨hotherPasses, ?_⟩
      exact h.related item hitem hpasses hreadable rel hrel htouches other hother hid hotherPasses

end Agreement

theorem acme_ne_nil : js "acme" ≠ [] := by decide

/-- A file of an import that is attached to one case and was added to another one. -/
def addedElsewhere : State where
  tenantId := js "acme"
  items := [{ Convergence.waitingFile with importId := some (js "m1") }]
  cases := [js "c1", js "c2"]
  caseMembers := [⟨js "c2", js "b1"⟩]
  caseItems := [⟨js "c1", js "e1"⟩, ⟨js "c2", js "e1"⟩]
  tags := []
  tagAssignments := []
  imports := [⟨js "m1", js "u1"⟩]
  importCases := [⟨js "m1", js "c1"⟩]
  relationships := []
  tenantId_ne := acme_ne_nil
  nodup_items := List.nodup_singleton _
  imported item hitem importId himport := by
    rw [List.mem_singleton.mp hitem] at himport
    obtain rfl := Option.some.inj himport
    exact List.mem_cons_self ..
  related rel hrel := by cases hrel

/-- A reviewer of the other case, who did not upload it. -/
def otherReviewer : Caller := ⟨js "u2", js "b1", [.reviewer]⟩

/-- The reviewer finds the file and cannot open it. -/
theorem not_oneRule : ¬ ∀ (s : State) (caller : Caller) (fetch : JsString → ℕ → Option JsString)
    (now : ℤ), OneRule s caller asciiRuntime exactEngine fetch now := by
  intro h
  have hmem : { Convergence.waitingFile with importId := some (js "m1") } ∈ addedElsewhere.items :=
    List.mem_cons_self ..
  have hfinds : Finds addedElsewhere otherReviewer asciiRuntime exactEngine (fun _ _ => none) 0
      { Convergence.waitingFile with importId := some (js "m1") } :=
    ⟨_, _, rfl, rfl, by decide +kernel⟩
  obtain ⟨row, hrow⟩ := ((h addedElsewhere otherReviewer (fun _ _ => none) 0).1 _ hmem).mp hfinds
  have hrefused : requireItem addedElsewhere otherReviewer (js "e1")
      (addedElsewhere.findItem (js "e1")) = .error .notFound := by decide +kernel
  cases hrefused.symm.trans hrow

end AegCloudDfir.Search.Access
