import AegCloudDfir.Export.Native

/-!
# The manifest of a native export

What the manifest of a finished native export says about the items it saw. There is a row for
each, the counts are the counts of the rows, and a file that is marked as verified is in the
archive where the row says. A row for an attachment that is inside another item names the path
of that item. The family index has decided that path before the item was written, and an item
that is an attachment itself is not written under it: its own path is allocated anew, and the
path that was decided for it counts as used by then.
-/

namespace AegCloudDfir.Export

section Accounting

variable {Bytes : Type} (sha256 : Bytes → JsString) (deliveries : JsString → Delivery Bytes)
  (splitBytes : ℕ) (layout : AttachmentLayout)

/-- The family index of a run. -/
abbrev familyIndex (tables : Tables) (includeFamilies : Bool) (resolved : List JsString) :
    FamilyIndex :=
  buildFamilyIndex tables (exportedIds tables includeFamilies resolved) layout

/-- `processExportRun` for natives, from the items on that `resolveSelectionIds` finds. -/
def nativeExport (tables : Tables) (includeFamilies : Bool) (resolved : List JsString) :
    NativeExport Bytes :=
  runNativeExport sha256 deliveries splitBytes (familyIndex layout tables includeFamilies resolved)
    layout tables (selectedItems tables includeFamilies resolved)

/-- The row of a container agrees with the row of something inside it. -/
structure Contains (container entry : ManifestEntry) : Prop where
  id : container.evidenceItemId = entry.containerItemId
  placement : container.placement = .file
  verified : container.verified
  path : container.archivePath = entry.containerPath
  part : container.archivePart = entry.archivePart

/-- What the manifest says is so. -/
structure AccountsForItems (items : List Item) (result : NativeExport Bytes) : Prop where
  /-- one row for each item -/
  ids : result.entries.map ManifestEntry.evidenceItemId = items.map Item.id
  /-- what is inside something is inside something that was exported -/
  inside : ∀ entry ∈ result.entries, entry.placement = .inline →
    ∃ container ∈ result.entries, Contains container entry
  /-- what is a file was appended once, as the row says -/
  appended : ∀ entry ∈ result.entries, entry.placement = .file → entry.verified →
    ∃ bytes, filesFor result.files entry.evidenceItemId =
      [⟨entry.archivePart, entry.archivePath, entry.evidenceItemId, bytes⟩] ∧
        sha256 bytes = entry.sha256
  seen : result.itemCount = items.length
  verifiedCount : result.verifiedCount = result.entries.countP VerifiedFile
  inlineCount : result.inlineAttachmentCount = result.entries.countP IsInline
  failedCount : result.failedCount = result.entries.countP FailedFile
  sum : result.verifiedCount + result.inlineAttachmentCount + result.failedCount = items.length

/-- Attachments are inside an exported item that is itself an attachment of something that is
not exported. -/
def HoldsApart (items : List Item) (holder : Item) : Prop :=
  holder ∈ items ∧
    (∃ item ∈ items, ∃ rel, item.firstAttachment = some rel ∧ rel.parentId = holder.id) ∧
      ∃ rel, holder.firstAttachment = some rel ∧ rel.parentId ∉ items.map Item.id

/-- Whatever holds attachments apart is not written, or was displaced in the first place. -/
def ApartDisplaced (tables : Tables) (ids : List JsString) (items : List Item) : Prop :=
  layout = .inline → ∀ holder, HoldsApart items holder → Intact sha256 deliveries holder →
    Displaced (namedParents tables ids) holder

variable {sha256 deliveries splitBytes layout}

/-- Every row is of one of three kinds. -/
theorem countP_kinds (entries : List ManifestEntry) :
    entries.countP VerifiedFile + entries.countP IsInline + entries.countP FailedFile =
      entries.length := by
  induction entries with
  | nil => rfl
  | cons entry entries ih =>
    have hkind : (if VerifiedFile entry then 1 else 0) + (if IsInline entry then 1 else 0) +
        (if FailedFile entry then 1 else 0) = 1 := by
      rw [VerifiedFile, IsInline, FailedFile]
      cases entry.placement <;> cases entry.verified <;> rfl
    simp only [List.countP_cons, List.length_cons]
    omega

theorem countP_fillParts {p : ManifestEntry → Bool}
    (hp : ∀ (entry : ManifestEntry) (part : ℕ), p { entry with archivePart := part } = p entry)
    (run : Run Bytes) : (fillParts run).countP p = run.entries.countP p := by
  have hcount := congrArg (List.countP id) (map_fillParts p hp run)
  rwa [List.countP_map, List.countP_map] at hcount

/-! ## The path of a holder -/

/-- Without directories of families, a path is that which a parent gets. -/
theorem plainPath_inline (family : FamilyIndex) (item : Item) :
    plainPath family .inline item = basePath item := by
  have hdir : custodianDir item.custodianEmail ≠ [] := sanitizeFilename_ne_nil _
  have hname : archiveFileName item ≠ [] := sanitizeFilename_ne_nil _
  have hparts : ([js "custodian", custodianDir item.custodianEmail, [],
      archiveFileName item].filter fun p => p ≠ []) =
        [js "custodian", custodianDir item.custodianEmail, archiveFileName item] := by
    rw [List.filter_cons_of_pos (by decide), List.filter_cons_of_pos (by simpa using hdir),
      List.filter_cons_of_neg (by decide), List.filter_cons_of_pos (by simpa using hname),
      List.filter_nil]
  have hcustodian : js "custodian/" = js "custodian" ++ js "/" := rfl
  rw [plainPath, familyDir, if_pos rfl, hparts, basePath, hcustodian, joinWith,
    PrefixCode.join_cons, List.flatMap_cons, List.flatMap_cons, List.flatMap_nil, List.append_nil]
  simp only [List.append_assoc]

variable {tables : Tables} {ids : List JsString}

/-- A parent that is no attachment is written under the path that was decided. -/
theorem filePath_of_parent {family : FamilyIndex} {used : List JsString} {item : Item}
    {path : JsString} (hnone : item.firstAttachment = none)
    (hpath : family.pathById.get? item.id = some path) :
    filePath family .inline used item = path := by
  rw [filePath, if_pos ⟨rfl, hnone⟩, hpath, Option.getD_some]

/-- A parent that is an attachment gets the path with its id, since the other one is used. -/
theorem filePath_of_attachment {used : List JsString} {item : Item}
    (hattachment : item.firstAttachment ≠ none) (hitem : item ∈ namedParents tables ids)
    (hused : ∀ path ∈ (buildFamilyIndex tables ids .inline).pathById.map Prod.snd, path ∈ used) :
    filePath (buildFamilyIndex tables ids .inline) .inline used item =
      withIdSuffix (basePath item) item.id := by
  rw [filePath, if_neg fun hboth => hattachment hboth.2, allocatePath_fst, plainPath_inline]
  have hmem : basePath item ∈ used :=
    hused _ (path_spec (namedParents_pairwise tables ids) hitem).1
  rw [if_pos hmem]

/-- **Where a holder is** compared with where the rows of its attachments say it is. -/
theorem filePath_eq_iff {used : List JsString} {item : Item} {path : JsString}
    (hitem : item ∈ namedParents tables ids)
    (hused : ∀ path ∈ (buildFamilyIndex tables ids .inline).pathById.map Prod.snd, path ∈ used)
    (hpath : (buildFamilyIndex tables ids .inline).pathById.get? item.id = some path) :
    filePath (buildFamilyIndex tables ids .inline) .inline used item = path ↔
      item.firstAttachment = none ∨ Displaced (namedParents tables ids) item := by
  by_cases hattachment : item.firstAttachment = none
  · exact iff_of_true (filePath_of_parent hattachment hpath) (.inl hattachment)
  · rw [filePath_of_attachment hattachment hitem hused, or_iff_right hattachment]
    have hindex : (buildFamilyIndex tables ids .inline).pathById =
        (claimPaths (namedParents tables ids)).2 := rfl
    rw [hindex] at hpath
    obtain ⟨-, ⟨hbase, hnot⟩ | ⟨hsuffix, hdisplaced⟩⟩ :=
      path_spec (namedParents_pairwise tables ids) hitem
    · refine iff_of_false ?_ hnot
      rw [← Option.some.inj (hbase.symm.trans hpath)]
      exact withIdSuffix_ne _ _
    · exact iff_of_true (Option.some.inj (hsuffix.symm.trans hpath)) hdisplaced

/-- An exported parent has a path in the index. -/
theorem get?_of_mem_namedParents {item : Item} (h : item ∈ namedParents tables ids) :
    ∃ path, (buildFamilyIndex tables ids .inline).pathById.get? item.id = some path := by
  obtain ⟨-, ⟨hpath, -⟩ | ⟨hpath, -⟩⟩ := path_spec (namedParents_pairwise tables ids) h
  · exact ⟨_, hpath⟩
  · exact ⟨_, hpath⟩

/-- Something is inside what it names as its holder, at the path of that. -/
theorem containerOf_eq_some {family : FamilyIndex} {item : Item} {id path : JsString}
    (h : containerOf family layout item = some (id, path)) :
    layout = .inline ∧ ∃ rel, item.firstAttachment = some rel ∧
      family.pathById.get? id = some path ∧ rel.parentId = id := by
  rw [containerOf] at h
  split_ifs at h with hlayout
  obtain ⟨rel, hrel, hmap⟩ := Option.bind_eq_some_iff.mp h
  obtain ⟨_, hget, heq⟩ := Option.map_eq_some_iff.mp hmap
  obtain ⟨rfl, rfl⟩ := Prod.mk.inj heq
  exact ⟨hlayout, rel, hrel, hget, rfl⟩

/-! ## The rows of an export -/

section Passes

variable {family : FamilyIndex} {items done : List Item} {first run : Run Bytes}

/-- A file of the first pass keeps its row to the end. -/
theorem mem_fillParts_of_file
    (hfirst : FirstPass sha256 deliveries family layout items first)
    (hsecond : SecondPass sha256 deliveries family layout items first done run)
    (hdone : ∀ id, id ∈ done.map Item.id ↔ ∃ i, Orphan first id i)
    (hnodup : (items.map Item.id).Nodup) {entry : ManifestEntry} (hentry : entry ∈ first.entries)
    (hfile : entry.placement = .file) : entry ∈ fillParts run := by
  obtain ⟨i, hi⟩ := List.mem_iff_getElem?.mp hentry
  have hids := congrArg (fun ids => ids[i]?) hfirst.ids
  simp only [List.getElem?_map, hi, Option.map_some] at hids
  obtain ⟨item, hitem, hid⟩ := Option.map_eq_some_iff.mp hids.symm
  have hkept : item.id ∉ done.map Item.id := by
    intro hrescued
    obtain ⟨j, entry', hj, hinline, hid', -⟩ := (hdone item.id).mp hrescued
    have hnodup' : (first.entries.map ManifestEntry.evidenceItemId).Nodup := by
      rwa [hfirst.ids]
    obtain rfl := List.inj_on_of_nodup_map hnodup' (List.mem_of_getElem? hj) hentry
      (hid'.trans hid)
    rw [hfile] at hinline
    cases hinline
  obtain ⟨entry', hi', hrun, -⟩ := hsecond.kept i item hitem hkept
  obtain rfl := Option.some.inj (hi.symm.trans hi')
  exact List.mem_of_getElem? (getElem?_fillParts_file hrun hfile)

/-- Every item has a row. -/
theorem row_of_item (hfirst : FirstPass sha256 deliveries family layout items first)
    (hsecond : SecondPass sha256 deliveries family layout items first done run)
    (hdone : ∀ id, id ∈ done.map Item.id ↔ ∃ i, Orphan first id i)
    (hnodup : (items.map Item.id).Nodup) {item : Item} (hitem : item ∈ items) :
    ∃ entry ∈ fillParts run,
      FinalRow sha256 deliveries family layout first run.archive.files item entry := by
  obtain ⟨i, hi⟩ := List.mem_iff_getElem?.mp hitem
  obtain ⟨entry, hentry, hrow⟩ := finalRows hnodup hfirst hsecond hdone i hi
  exact ⟨entry, List.mem_of_getElem? hentry, hrow⟩

/-- A parent with an intact native that is a file is found again where it was written. -/
theorem FirstPass.part_of_intact (hfirst : FirstPass sha256 deliveries family layout items first)
    {item : Item} (hitem : item ∈ items) (hnone : containerOf family layout item = none)
    (hintact : Intact sha256 deliveries item) (hparent : item.id ∈ family.parents) :
    ∃ part, first.partByParentId.get? item.id = some part := by
  obtain ⟨i, hi⟩ := List.mem_iff_getElem?.mp hitem
  obtain ⟨entry, hentry, hrow | ⟨-, hrow, -⟩⟩ := hfirst.rows i item hi
  · rw [hrow.container] at hnone
    cases hnone
  · refine ⟨entry.archivePart, (hfirst.parts _ _).mpr ⟨hparent, entry,
      List.mem_of_getElem? hentry, hrow.id, ?_, rfl⟩⟩
    exact decide_eq_true ⟨hrow.placement, hrow.verified.mpr hintact⟩

/-- What is a file after the first pass is not inside anything. -/
theorem FirstPass.containerOf_of_file
    (hfirst : FirstPass sha256 deliveries family layout items first)
    (hnodup : (items.map Item.id).Nodup) {item : Item} (hitem : item ∈ items)
    {entry : ManifestEntry} (hentry : entry ∈ first.entries) (hfile : entry.placement = .file)
    (hid : entry.evidenceItemId = item.id) : containerOf family layout item = none := by
  obtain ⟨i, hi⟩ := List.mem_iff_getElem?.mp hentry
  have hplace := getElem?_of_id hfirst.ids hnodup hitem hi hid
  obtain ⟨entry', hi', hrow | ⟨hnone, -, -⟩⟩ := hfirst.rows i item hplace
  · obtain rfl := Option.some.inj (hi.symm.trans hi')
    rw [hrow.placement] at hfile
    cases hfile
  · exact hnone

/-- A file that is verified was appended once. -/
theorem FileRow.appended {files : List (ArchiveFile Bytes)} {item : Item} {entry : ManifestEntry}
    (hrow : FileRow sha256 deliveries files item entry) (hverified : entry.verified) :
    ∃ bytes, filesFor files entry.evidenceItemId =
      [⟨entry.archivePart, entry.archivePath, entry.evidenceItemId, bytes⟩] ∧
        sha256 bytes = entry.sha256 := by
  obtain ⟨bytes, hstreamed, hdigest⟩ := (hrow.verified.mp hverified).streamed
  refine ⟨bytes, ?_, hdigest.trans hrow.digest.symm⟩
  rw [hrow.id, hrow.files, filesOf, hstreamed]
  rfl

theorem FinalRow.id {files : List (ArchiveFile Bytes)} {item : Item} {entry : ManifestEntry}
    (hrow : FinalRow sha256 deliveries family layout first files item entry) :
    entry.evidenceItemId = item.id := by
  cases hrow with
  | file _ row => exact row.id
  | rescued _ row => exact row.id
  | inline row => exact row.id

/-- Every row is the row of an item. -/
theorem item_of_row (hfirst : FirstPass sha256 deliveries family layout items first)
    (hsecond : SecondPass sha256 deliveries family layout items first done run)
    (hdone : ∀ id, id ∈ done.map Item.id ↔ ∃ i, Orphan first id i)
    (hnodup : (items.map Item.id).Nodup) {entry : ManifestEntry}
    (hentry : entry ∈ fillParts run) :
    ∃ item ∈ items, FinalRow sha256 deliveries family layout first run.archive.files item entry := by
  obtain ⟨i, hi⟩ := List.mem_iff_getElem?.mp hentry
  have hids : (fillParts run).map ManifestEntry.evidenceItemId = items.map Item.id :=
    (map_fillParts _ (fun _ _ => rfl) run).trans hsecond.ids
  have hat := congrArg (fun ids => ids[i]?) hids
  simp only [List.getElem?_map, hi, Option.map_some] at hat
  obtain ⟨item, hitem, -⟩ := Option.map_eq_some_iff.mp hat.symm
  obtain ⟨entry', hi', hrow⟩ := finalRows hnodup hfirst hsecond hdone i hitem
  obtain rfl := Option.some.inj (hi.symm.trans hi')
  exact ⟨item, List.mem_of_getElem? hitem, hrow⟩

end Passes

/-- The two passes of an export. -/
theorem nativeExport_passes (sha256 : Bytes → JsString) (deliveries : JsString → Delivery Bytes)
    (splitBytes : ℕ) (layout : AttachmentLayout) (tables : Tables) (includeFamilies : Bool)
    (resolved : List JsString) :
    ∃ first done run,
      FirstPass sha256 deliveries (familyIndex layout tables includeFamilies resolved) layout
        (selectedItems tables includeFamilies resolved) first ∧
      SecondPass sha256 deliveries (familyIndex layout tables includeFamilies resolved) layout
        (selectedItems tables includeFamilies resolved) first done run ∧
      (∀ id, id ∈ done.map Item.id ↔ ∃ i, Orphan first id i) ∧
      nativeExport sha256 deliveries splitBytes layout tables includeFamilies resolved =
        ⟨fillParts run, run.seen, run.written, run.inlineCount, run.failedCount,
          run.archive.files⟩ := by
  have hnodup := nodup_selectedItems tables includeFamilies resolved
  have hfirst : FirstPass sha256 deliveries (familyIndex layout tables includeFamilies resolved)
      layout (selectedItems tables includeFamilies resolved)
      (exportItems sha256 deliveries splitBytes _ layout _) := firstPass_exportItems hnodup
  obtain ⟨done, hsecond, hdone⟩ :=
    secondPass_rescue splitBytes hfirst hnodup fun item hitem => (mem_loadItemsInBatches.mp hitem).1
  exact ⟨_, done, _, hfirst, hsecond, hdone, rfl⟩

section Holders

variable {includeFamilies : Bool} {resolved : List JsString} {item holder : Item}
  {rel : Relationship}

/-- What an exported attachment names is a parent of the index, if it is exported. -/
theorem holder_mem_namedParents
    (hholder : holder ∈ selectedItems tables includeFamilies resolved)
    (hitem : item ∈ selectedItems tables includeFamilies resolved)
    (hrel : item.firstAttachment = some rel) (hparent : rel.parentId = holder.id) :
    holder ∈ namedParents tables (exportedIds tables includeFamilies resolved) := by
  obtain ⟨hholderTable, hholderId⟩ := mem_loadItemsInBatches.mp hholder
  obtain ⟨hitemTable, hitemId⟩ := mem_loadItemsInBatches.mp hitem
  refine mem_namedParents.mpr ⟨hholderTable, hholderId, ?_⟩
  rw [mem_parentIds]
  refine ⟨item, hitemTable, hitemId, rel, List.mem_of_find?_eq_some hrel, ?_, hparent⟩
  exact List.find?_some (p := fun rel : Relationship => isAttachmentKind rel.kind) hrel

/-- Nothing that is not exported has a path in the index. -/
theorem containerOf_holder (layout : AttachmentLayout) (hrel : holder.firstAttachment = some rel)
    (hout : rel.parentId ∉ (selectedItems tables includeFamilies resolved).map Item.id) :
    containerOf (familyIndex layout tables includeFamilies resolved) layout holder = none := by
  rw [containerOf]
  split_ifs with hlayout
  · rw [hrel, Option.bind_some, Option.map_eq_none_iff]
    apply get?_pathById_eq_none
    intro parent hparent heq
    obtain ⟨htable, hid, -⟩ := mem_namedParents.mp hparent
    apply hout
    rw [← heq]
    exact List.mem_map_of_mem (mem_loadItemsInBatches.mpr ⟨htable, hid⟩)
  · rfl

/-- What an attachment names is not exported if the attachment has a file of its own. -/
theorem holder_out (hholder : holder ∈ selectedItems tables includeFamilies resolved)
    (hrel : holder.firstAttachment = some rel)
    (hnone : containerOf (familyIndex .inline tables includeFamilies resolved) .inline holder =
      none) :
    rel.parentId ∉ (selectedItems tables includeFamilies resolved).map Item.id := by
  intro hmem
  obtain ⟨parent, hparent, hid⟩ := List.mem_map.mp hmem
  obtain ⟨path, hpath⟩ :=
    get?_of_mem_namedParents (holder_mem_namedParents hparent hholder hrel hid.symm)
  rw [containerOf, if_pos rfl, hrel, Option.bind_some, ← hid, hpath] at hnone
  cases hnone

end Holders

end Accounting

/-! ## An attachment of an attachment -/

/-- An email that is attached to something else. -/
def attachedMail : Item := exampleItem (js "c1") .email (js "c.eml") [⟨js "e1", .attachment⟩]

/-- An attachment of that email. -/
def innerFile : Item := exampleItem (js "b1") .attachment (js "b") [⟨js "c1", .attachment⟩]

theorem nodup_nestedMail : ([attachedMail, innerFile].map Item.id).Nodup := by
  decide

/-- The two. What the email is attached to is not there. -/
def nestedMail : Tables where
  items := [attachedMail, innerFile]
  primaryKey := nodup_nestedMail

end AegCloudDfir.Export
