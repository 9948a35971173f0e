import AegCloudDfir.Export.Items

/-!
# Native exports

`runNativeExport` of `apps/worker/src/processors/export-run.ts`. Every item gets a row of the
manifest. With the layout `inline`, an attachment whose holder is exported gets no file of its
own, since its bytes are in the native of the holder; its row names the path of that native,
which the family index has decided beforehand. Everything else is streamed into the archive,
part by part, and hashed on the way. A second pass rescues the attachments whose holder did not
arrive.

A run is a fold over the items, then a fold over the items to be rescued.
-/

namespace AegCloudDfir.Export

/-! ## Rows of the manifest -/

/-- `placement` -/
inductive Placement : Type where
  | file
  | inline
  deriving DecidableEq

/-- `ManifestEntry` -/
structure ManifestEntry where
  evidenceItemId : JsString
  placement : Placement
  archivePath : JsString
  containerPath : JsString
  containerItemId : JsString
  archivePart : ℕ
  sha256 : JsString
  size : ℕ
  custodianEmail : JsString
  custodianId : JsString
  collectionId : JsString
  verified : Bool
  note : JsString
  error : JsString
  deriving DecidableEq

/-! ## Paths of files -/

section Paths

variable (family : FamilyIndex) (layout : AttachmentLayout)

/-- `familyDir` -/
def familyDir (item : Item) : JsString :=
  if layout = .inline then []
  else
    match item.firstAttachment with
    | some rel =>
      sanitizeFilename ((family.nameById.get? rel.parentId).getD (js "family")) ++ js "-" ++
        rel.parentId.take 8
    | none =>
      if item.id ∈ family.parents then sanitizeFilename item.name ++ js "-" ++ item.id.take 8
      else []

/-- The path that the name of an item gives, before it is compared with others. -/
def plainPath (item : Item) : JsString :=
  joinWith (js "/")
    ([js "custodian", custodianDir item.custodianEmail, familyDir family layout item,
      archiveFileName item].filter fun p => p ≠ [])

/-- `allocatePath`: the path, and the used paths with it. -/
def allocatePath (used : List JsString) (item : Item) : JsString × List JsString :=
  let candidate := plainPath family layout item
  let candidate := if candidate ∈ used then withIdSuffix candidate item.id else candidate
  (candidate, addTo used candidate)

/-- What `placementFor` decides. -/
inductive PlacementChoice : Type where
  | file (path note : JsString)
  | inline (containerId containerPath : JsString)

/-- Why an attachment of something that is not exported has a file of its own. -/
def holderNotExportedNote : JsString :=
  js "parent native is not in this export, so this attachment was written as its own file"

/-- `placementFor`, with the used paths afterwards. -/
def placementFor (used : List JsString) (item : Item) : PlacementChoice × List JsString :=
  if layout = .inline then
    match item.firstAttachment with
    | some rel =>
      match family.pathById.get? rel.parentId with
      | some containerPath => (.inline rel.parentId containerPath, used)
      | none =>
        let (path, used) := allocatePath family layout used item
        (.file path holderNotExportedNote, used)
    | none =>
      match family.pathById.get? item.id with
      | some known => (.file known [], used)
      | none =>
        let (path, used) := allocatePath family layout used item
        (.file path [], used)
  else
    let (path, used) := allocatePath family layout used item
    (.file path [], used)

end Paths

/-! ## The archive -/

/-- `shouldStartNewArchive` -/
def shouldStartNewArchive (bytesInCurrent nextItemSize splitBytes : ℕ) : Bool :=
  bytesInCurrent > 0 ∧ bytesInCurrent + nextItemSize > splitBytes

/-- A file that was appended to a part, and the item whose native it is. -/
structure ArchiveFile (Bytes : Type) where
  part : ℕ
  path : JsString
  itemId : JsString
  bytes : Bytes
  deriving DecidableEq

/-- The parts of the archive, and where the writer stands. -/
structure Archive (Bytes : Type) where
  partNumber : ℕ
  bytesInPart : ℕ
  totalBytes : ℕ
  files : List (ArchiveFile Bytes)

section Writing

variable {Bytes : Type} (sha256 : Bytes → JsString) (deliveries : JsString → Delivery Bytes)
  (splitBytes : ℕ)

/-- `rotatePart`, if the item would not fit. -/
def Archive.makeRoom (archive : Archive Bytes) (size : ℕ) : Archive Bytes :=
  if shouldStartNewArchive archive.bytesInPart size splitBytes then
    { archive with partNumber := archive.partNumber + 1, bytesInPart := 0 }
  else archive

/-- `writer.append` -/
def Archive.append (archive : Archive Bytes) (path itemId : JsString) (bytes : Bytes) :
    Archive Bytes :=
  { archive with files := archive.files ++ [⟨archive.partNumber, path, itemId, bytes⟩] }

/-- `writeNative`: the archive and the row afterwards; the item is verified if the row is. -/
def writeNative (archive : Archive Bytes) (item : Item) (entry : ManifestEntry) :
    Archive Bytes × ManifestEntry :=
  if item.blob = none ∨ item.sha256 = [] then
    (archive, { entry with error := js "no preserved native bytes" })
  else
    let archive := archive.makeRoom splitBytes item.size
    let entry := { entry with archivePart := archive.partNumber }
    match deliveries item.id with
    | .unavailable error => (archive, { entry with error })
    | .interrupted received error =>
      (archive.append entry.archivePath item.id received, { entry with error })
    | .complete bytes =>
      let archive := archive.append entry.archivePath item.id bytes
      if sha256 bytes ≠ item.sha256 then
        (archive, { entry with
          error := js "sha256 mismatch: expected " ++ item.sha256 ++ js ", streamed " ++
            sha256 bytes })
      else
        ({ archive with
          bytesInPart := archive.bytesInPart + item.size
          totalBytes := archive.totalBytes + item.size }, { entry with verified := true })

/-- What of the native of an item gets into the archive. -/
def streamed (item : Item) : Option Bytes :=
  if item.blob = none ∨ item.sha256 = [] then none
  else
    match deliveries item.id with
    | .unavailable _ => none
    | .interrupted received _ => some received
    | .complete bytes => some bytes

/-- The native is preserved, it arrives whole, and it has the digest that was recorded. -/
def Intact (item : Item) : Prop :=
  item.blob ≠ none ∧ item.sha256 ≠ [] ∧
    ∃ bytes, deliveries item.id = .complete bytes ∧ sha256 bytes = item.sha256

/-- The file of an item. -/
def filesOf (item : Item) (part : ℕ) (path : JsString) : List (ArchiveFile Bytes) :=
  (streamed deliveries item).toList.map fun bytes => ⟨part, path, item.id, bytes⟩

/-- **What is written for an item.** The file stands under the path and in the part of the
row; the row is verified exactly if the native is intact, and else unchanged. -/
theorem writeNative_spec (archive : Archive Bytes) (item : Item) {entry : ManifestEntry}
    (hnew : entry.verified = false) :
    ∃ archive' part verified error, writeNative sha256 deliveries splitBytes archive item entry =
        (archive', { entry with archivePart := part, verified, error }) ∧
      archive'.files = archive.files ++ filesOf deliveries item part entry.archivePath ∧
      (verified ↔ Intact sha256 deliveries item) := by
  have hroom : (archive.makeRoom splitBytes item.size).files = archive.files := by
    rw [Archive.makeRoom]
    split_ifs <;> rfl
  unfold filesOf Export.streamed Intact
  rw [writeNative]
  by_cases hmissing : item.blob = none ∨ item.sha256 = []
  · rw [if_pos hmissing]
    simp only [if_pos hmissing]
    refine ⟨archive, entry.archivePart, false, _, by rw [← hnew], by simp, ?_⟩
    refine iff_of_false Bool.false_ne_true ?_
    rintro ⟨hblob, hdigest, -⟩
    exact hmissing.elim hblob hdigest
  · rw [if_neg hmissing]
    simp only [if_neg hmissing]
    rw [not_or] at hmissing
    cases deliveries item.id with
    | unavailable error =>
      refine ⟨_, _, false, error, by rw [← hnew], by simpa using hroom, ?_⟩
      exact iff_of_false Bool.false_ne_true (by rintro ⟨-, -, _, ⟨⟩, -⟩)
    | interrupted received error =>
      refine ⟨_, _, false, error, by rw [← hnew], by simp [Archive.append, hroom], ?_⟩
      exact iff_of_false Bool.false_ne_true (by rintro ⟨-, -, _, ⟨⟩, -⟩)
    | complete bytes =>
      by_cases hdigest : sha256 bytes = item.sha256
      · refine ⟨_, _, true, entry.error, if_neg (not_not.mpr hdigest),
          by simp [Archive.append, hroom], ?_⟩
        exact iff_of_true rfl ⟨hmissing.1, hmissing.2, bytes, rfl, hdigest⟩
      · refine ⟨_, _, false, _, (if_pos hdigest).trans (by rw [← hnew]),
          by simp [Archive.append, hroom], ?_⟩
        refine iff_of_false Bool.false_ne_true ?_
        rintro ⟨-, -, _, ⟨⟩, hsha⟩
        exact hdigest hsha

variable {sha256 deliveries}

theorem Intact.streamed {item : Item} (h : Intact sha256 deliveries item) :
    ∃ bytes, streamed deliveries item = some bytes ∧ sha256 bytes = item.sha256 := by
  obtain ⟨hblob, hdigest, bytes, hdelivery, hsha⟩ := h
  refine ⟨bytes, ?_, hsha⟩
  rw [Export.streamed, if_neg (not_or.mpr ⟨hblob, hdigest⟩), hdelivery]

end Writing

/-! ## A run -/

/-- `entry`, before anything is written. -/
def freshEntry (item : Item) (placement : PlacementChoice) (partNumber : ℕ) : ManifestEntry where
  evidenceItemId := item.id
  placement := match placement with | .file _ _ => .file | .inline _ _ => .inline
  archivePath := match placement with | .file path _ => path | .inline _ _ => []
  containerPath := match placement with | .file _ _ => [] | .inline _ path => path
  containerItemId := match placement with | .file _ _ => [] | .inline id _ => id
  archivePart := match placement with | .file _ _ => partNumber | .inline _ _ => 0
  sha256 := item.sha256
  size := item.size
  custodianEmail := item.custodianEmail.getD []
  custodianId := item.custodianId.getD []
  collectionId := item.collectionId.getD []
  verified := false
  note := match placement with | .file _ note => note | .inline _ _ => []
  error := []

/-- The variables of `runNativeExport`. -/
structure Run (Bytes : Type) where
  used : List JsString
  archive : Archive Bytes
  entries : List ManifestEntry
  seen : ℕ
  written : ℕ
  inlineCount : ℕ
  failedCount : ℕ
  /-- with the place of the row in the manifest -/
  inlinedByParent : JsMap JsString (List (JsString × ℕ))
  partByParentId : JsMap JsString ℕ

section Runs

variable {Bytes : Type} (sha256 : Bytes → JsString) (deliveries : JsString → Delivery Bytes)
  (splitBytes : ℕ) (family : FamilyIndex) (layout : AttachmentLayout)

/-- The variables before the first item. -/
def Run.start : Run Bytes where
  used := distinct (family.pathById.map Prod.snd)
  archive := ⟨1, 0, 0, []⟩
  entries := []
  seen := 0
  written := 0
  inlineCount := 0
  failedCount := 0
  inlinedByParent := []
  partByParentId := []

/-- One round of the loop over the items. -/
def exportItem (run : Run Bytes) (item : Item) : Run Bytes :=
  let (placement, used) := placementFor family layout run.used item
  let entry := freshEntry item placement run.archive.partNumber
  match placement with
  | .inline containerId _ =>
    { run with
      used
      seen := run.seen + 1
      inlineCount := run.inlineCount + 1
      inlinedByParent := run.inlinedByParent.push containerId (item.id, run.entries.length)
      entries := run.entries ++ [entry] }
  | .file _ _ =>
    let (archive, entry) := writeNative sha256 deliveries splitBytes run.archive item entry
    if entry.verified then
      { run with
        used
        archive
        seen := run.seen + 1
        written := run.written + 1
        partByParentId :=
          if item.id ∈ family.parents then run.partByParentId.set item.id entry.archivePart
          else run.partByParentId
        entries := run.entries ++ [entry] }
    else
      { run with
        used
        archive
        seen := run.seen + 1
        failedCount := run.failedCount + 1
        entries := run.entries ++ [entry] }

/-- The loop. -/
def exportItems (items : List Item) : Run Bytes :=
  items.foldl (exportItem sha256 deliveries splitBytes family layout) (Run.start family)

/-- `orphaned`: what is filed under a holder that was not written. -/
def orphaned (run : Run Bytes) : List (JsString × List (JsString × ℕ)) :=
  run.inlinedByParent.filter fun e => (run.partByParentId.get? e.1).isNone

/-- `byItemId` -/
def byItemId (run : Run Bytes) : JsMap JsString ℕ :=
  .ofEntries ((orphaned run).flatMap Prod.snd)

/-- Why an attachment of something that could not be written has a file of its own. -/
def rescuedNote : JsString :=
  js ("the parent native could not be exported, so this attachment was written as its own file " ++
    "rather than lost")

/-- One round of the loop over what is rescued. -/
def rescueItem (filed : JsMap JsString ℕ) (run : Run Bytes) (item : Item) : Run Bytes :=
  match filed.get? item.id with
  | none => run
  | some entryIndex =>
    match run.entries[entryIndex]? with
    | none => run
    | some entry =>
      let (path, used) := allocatePath family layout run.used item
      let entry := { entry with
        placement := .file
        archivePath := path
        containerPath := []
        containerItemId := []
        note := rescuedNote }
      let (archive, entry) := writeNative sha256 deliveries splitBytes run.archive item entry
      { run with
        used
        archive
        entries := run.entries.set entryIndex entry
        inlineCount := run.inlineCount - 1
        written := if entry.verified then run.written + 1 else run.written
        failedCount := if entry.verified then run.failedCount else run.failedCount + 1 }

/-- The pass over what is rescued. -/
def rescue (tables : Tables) (run : Run Bytes) : Run Bytes :=
  (loadItemsInBatches tables ((byItemId run).map Prod.fst)).flatten.foldl
    (rescueItem sha256 deliveries splitBytes family layout (byItemId run)) run

/-- The rows of attachments, each with the part its holder is in. -/
def partsOfInlined (run : Run Bytes) : List (ℕ × ℕ) :=
  run.inlinedByParent.flatMap fun e =>
    match run.partByParentId.get? e.1 with
    | none => []
    | some part => e.2.map fun filed => (filed.2, part)

/-- The part of a holder is written into a row that is still `inline`. -/
def fillPart (entries : List ManifestEntry) (w : ℕ × ℕ) : List ManifestEntry :=
  entries.modify w.1 fun entry =>
    if entry.placement = .inline then { entry with archivePart := w.2 } else entry

/-- The last loop, which writes the parts. -/
def fillParts (run : Run Bytes) : List ManifestEntry :=
  (partsOfInlined run).foldl fillPart run.entries

/-- What a finished export consists of: the manifest, with its counts, and the files. -/
structure NativeExport (Bytes : Type) where
  entries : List ManifestEntry
  itemCount : ℕ
  verifiedCount : ℕ
  inlineAttachmentCount : ℕ
  failedCount : ℕ
  files : List (ArchiveFile Bytes)

/-- `runNativeExport` -/
def runNativeExport (tables : Tables) (items : List Item) : NativeExport Bytes :=
  let run := rescue sha256 deliveries splitBytes family layout tables
    (exportItems sha256 deliveries splitBytes family layout items)
  { entries := fillParts run
    itemCount := run.seen
    verifiedCount := run.written
    inlineAttachmentCount := run.inlineCount
    failedCount := run.failedCount
    files := run.archive.files }

/-- A line of `hashlist.txt`: a digest and a path. -/
def NativeExport.hashlist (result : NativeExport Bytes) : List (JsString × JsString) :=
  (result.entries.filter fun e => e.verified ∧ e.placement = .file).map fun e =>
    (e.sha256, e.archivePath)

end Runs

/-! ## The loop over the items -/

section Placing

variable (family : FamilyIndex) (layout : AttachmentLayout)

/-- What an attachment is inside of: the id and the path of an exported item. -/
def containerOf (item : Item) : Option (JsString × JsString) :=
  if layout = .inline then
    item.firstAttachment.bind fun rel =>
      (family.pathById.get? rel.parentId).map fun path => (rel.parentId, path)
  else none

/-- The path of an item that has a file of its own. -/
def filePath (used : List JsString) (item : Item) : JsString :=
  if layout = .inline ∧ item.firstAttachment = none then
    (family.pathById.get? item.id).getD (allocatePath family layout used item).1
  else (allocatePath family layout used item).1

variable {family layout} {used : List JsString} {item : Item}

theorem allocatePath_fst :
    (allocatePath family layout used item).1 =
      if plainPath family layout item ∈ used then withIdSuffix (plainPath family layout item) item.id
      else plainPath family layout item := rfl

theorem mem_allocatePath {path : JsString} :
    path ∈ (allocatePath family layout used item).2 ↔
      path ∈ used ∨ path = (allocatePath family layout used item).1 := mem_addTo

theorem placementFor_of_container {id path : JsString}
    (h : containerOf family layout item = some (id, path)) :
    placementFor family layout used item = (.inline id path, used) := by
  rw [containerOf] at h
  split_ifs at h with hlayout
  rw [placementFor, if_pos hlayout]
  rcases hrel : item.firstAttachment with _ | rel
  · rw [hrel] at h
    cases h
  · rw [hrel] at h
    rcases hpath : family.pathById.get? rel.parentId with _ | path
    · rw [Option.bind_some, hpath] at h
      cases h
    · rw [Option.bind_some, hpath] at h
      cases h
      simp only [hpath]

/-- What has a file gets the path for it, which is used from then on. -/
theorem placementFor_of_none (h : containerOf family layout item = none)
    (hused : ∀ path ∈ family.pathById.map Prod.snd, path ∈ used) :
    ∃ note used', placementFor family layout used item =
        (.file (filePath family layout used item) note, used') ∧
      ∀ path, path ∈ used' ↔ path ∈ used ∨ path = filePath family layout used item := by
  rw [containerOf] at h
  rw [placementFor, filePath]
  by_cases hlayout : layout = .inline
  · rw [if_pos hlayout] at h ⊢
    rcases hrel : item.firstAttachment with _ | rel
    · rw [if_pos ⟨hlayout, rfl⟩]
      rcases hknown : family.pathById.get? item.id with _ | known
      · exact ⟨_, _, rfl, fun path => mem_allocatePath⟩
      · refine ⟨_, _, rfl, fun path => ?_⟩
        have hmem : known ∈ used :=
          hused known (List.mem_map_of_mem (JsMap.mem_of_get? hknown))
        rw [Option.getD_some, or_iff_left_of_imp]
        rintro rfl
        exact hmem
    · rw [if_neg (by rintro ⟨-, ⟨⟩⟩)]
      rw [hrel, Option.bind_some, Option.map_eq_none_iff] at h
      simp only [h]
      exact ⟨_, _, rfl, fun path => mem_allocatePath⟩
  · rw [if_neg hlayout, if_neg fun hboth => hlayout hboth.1]
    exact ⟨_, _, rfl, fun path => mem_allocatePath⟩

end Placing

/-- The rows that are filed under a holder, with their places. -/
def filedRows (entries : List ManifestEntry) : List (JsString × (JsString × ℕ)) :=
  (entries.zipIdx.filter fun e => e.1.placement = .inline).map fun e =>
    (e.1.containerItemId, (e.1.evidenceItemId, e.2))

theorem mem_filedRows {entries : List ManifestEntry} {holder id : JsString} {i : ℕ} :
    (holder, (id, i)) ∈ filedRows entries ↔ ∃ entry, entries[i]? = some entry ∧
      entry.placement = .inline ∧ entry.containerItemId = holder ∧ entry.evidenceItemId = id := by
  simp only [filedRows, List.mem_map, List.mem_filter, decide_eq_true_eq, Prod.mk.injEq]
  refine ⟨?_, ?_⟩
  · rintro ⟨⟨entry, j⟩, ⟨hmem, hinline⟩, rfl, rfl, rfl⟩
    exact ⟨entry, List.mem_zipIdx_iff_getElem?.mp hmem, hinline, rfl, rfl⟩
  · rintro ⟨entry, hentry, hinline, rfl, rfl⟩
    exact ⟨(entry, i), ⟨List.mem_zipIdx_iff_getElem?.mpr hentry, hinline⟩, rfl, rfl, rfl⟩

theorem filedRows_concat (entries : List ManifestEntry) (entry : ManifestEntry) :
    filedRows (entries ++ [entry]) =
      filedRows entries ++
        if entry.placement = .inline then
          [(entry.containerItemId, (entry.evidenceItemId, entries.length))]
        else [] := by
  rw [filedRows, List.zipIdx_append, List.filter_append, List.map_append, ← filedRows,
    List.zipIdx_singleton, Nat.zero_add]
  split_ifs with hinline
  · rw [List.filter_cons_of_pos (by simpa using hinline)]
    rfl
  · rw [List.filter_cons_of_neg (by simpa using hinline)]
    rfl

/-- A verified file, a file that failed, and an attachment inside something else. -/
def VerifiedFile (entry : ManifestEntry) : Bool := entry.placement = .file ∧ entry.verified

/-- A file that failed. -/
def FailedFile (entry : ManifestEntry) : Bool := entry.placement = .file ∧ ¬ entry.verified

/-- Something inside something else. -/
def IsInline (entry : ManifestEntry) : Bool := entry.placement = .inline

section Rows

variable {Bytes : Type} (sha256 : Bytes → JsString) (deliveries : JsString → Delivery Bytes)
  (splitBytes : ℕ) (family : FamilyIndex) (layout : AttachmentLayout)

/-- The files of an item among all files. -/
def filesFor (files : List (ArchiveFile Bytes)) (id : JsString) : List (ArchiveFile Bytes) :=
  files.filter fun f => f.itemId = id

/-- The row of an item with a file, and the file. -/
structure FileRow (files : List (ArchiveFile Bytes)) (item : Item) (entry : ManifestEntry) :
    Prop where
  id : entry.evidenceItemId = item.id
  placement : entry.placement = .file
  digest : entry.sha256 = item.sha256
  verified : entry.verified ↔ Intact sha256 deliveries item
  files : filesFor files item.id = filesOf deliveries item entry.archivePart entry.archivePath

/-- The row of an item inside another. -/
structure InlineRow (files : List (ArchiveFile Bytes)) (item : Item) (entry : ManifestEntry) :
    Prop where
  id : entry.evidenceItemId = item.id
  placement : entry.placement = .inline
  digest : entry.sha256 = item.sha256
  verified : entry.verified = false
  container : containerOf family layout item = some (entry.containerItemId, entry.containerPath)
  files : filesFor files item.id = []

/-- The row of an item after the first pass. -/
def FirstRow (files : List (ArchiveFile Bytes)) (item : Item) (entry : ManifestEntry) : Prop :=
  InlineRow family layout files item entry ∨
    containerOf family layout item = none ∧ FileRow sha256 deliveries files item entry ∧
      ∃ used, (∀ path ∈ family.pathById.map Prod.snd, path ∈ used) ∧
        entry.archivePath = filePath family layout used item

/-- What the first pass keeps up. -/
structure FirstPass (done : List Item) (run : Run Bytes) : Prop where
  ids : run.entries.map ManifestEntry.evidenceItemId = done.map Item.id
  rows : ∀ (i : ℕ) item, done[i]? = some item → ∃ entry, run.entries[i]? = some entry ∧
    FirstRow sha256 deliveries family layout run.archive.files item entry
  files : ∀ f ∈ run.archive.files, f.itemId ∈ done.map Item.id
  used : ∀ path ∈ family.pathById.map Prod.snd, path ∈ run.used
  parts : ∀ id part, run.partByParentId.get? id = some part ↔ id ∈ family.parents ∧
    ∃ entry ∈ run.entries, entry.evidenceItemId = id ∧ VerifiedFile entry ∧
      entry.archivePart = part
  filed : run.inlinedByParent = .group (filedRows run.entries)
  seen : run.seen = done.length
  written : run.written = run.entries.countP VerifiedFile
  failedCount : run.failedCount = run.entries.countP FailedFile
  inlineCount : run.inlineCount = run.entries.countP IsInline

variable {sha256 deliveries splitBytes family layout} {files : List (ArchiveFile Bytes)}
  {item other : Item} {entry : ManifestEntry}

theorem filesFor_append_filesOf (files : List (ArchiveFile Bytes)) (item : Item) (part : ℕ)
    (path id : JsString) :
    filesFor (files ++ filesOf deliveries item part path) id =
      filesFor files id ++ if item.id = id then filesOf deliveries item part path else [] := by
  rw [filesFor, List.filter_append, ← filesFor]
  congr 1
  split_ifs with hid
  · rw [List.filter_eq_self]
    intro f hf
    obtain ⟨bytes, -, rfl⟩ := List.mem_map.mp hf
    exact decide_eq_true hid
  · rw [List.filter_eq_nil_iff]
    intro f hf
    obtain ⟨bytes, -, rfl⟩ := List.mem_map.mp hf
    simpa using hid

theorem mem_filesOf {f : ArchiveFile Bytes} {part : ℕ} {path : JsString}
    (h : f ∈ filesOf deliveries item part path) : f.itemId = item.id := by
  obtain ⟨bytes, -, rfl⟩ := List.mem_map.mp h
  rfl

/-- Files of other items do not change a row. -/
theorem FileRow.of_filesFor {files' : List (ArchiveFile Bytes)}
    (h : FileRow sha256 deliveries files item entry)
    (hfiles : filesFor files' item.id = filesFor files item.id) :
    FileRow sha256 deliveries files' item entry :=
  ⟨h.id, h.placement, h.digest, h.verified, hfiles.trans h.files⟩

theorem FirstRow.of_filesFor {files' : List (ArchiveFile Bytes)}
    (h : FirstRow sha256 deliveries family layout files item entry)
    (hfiles : filesFor files' item.id = filesFor files item.id) :
    FirstRow sha256 deliveries family layout files' item entry := by
  rcases h with hrow | ⟨hnone, hrow, hpath⟩
  · exact .inl ⟨hrow.id, hrow.placement, hrow.digest, hrow.verified, hrow.container,
      hfiles.trans hrow.files⟩
  · exact .inr ⟨hnone, hrow.of_filesFor hfiles, hpath⟩

theorem firstPass_start : FirstPass sha256 deliveries family layout [] (Run.start family) where
  ids := rfl
  rows := by rintro i item ⟨⟩
  files := by rintro f ⟨⟩
  used path hpath := mem_distinct.mpr hpath
  parts id part := iff_of_false (by rintro ⟨⟩) (by rintro ⟨-, entry, ⟨⟩, -⟩)
  filed := rfl
  seen := rfl
  written := rfl
  failedCount := rfl
  inlineCount := rfl

variable {done : List Item} {run : Run Bytes}

/-- A row is added at the end; the rows before it stay. -/
theorem FirstPass.rows_concat (h : FirstPass sha256 deliveries family layout done run)
    (hnew : item.id ∉ done.map Item.id)
    (hrow : FirstRow sha256 deliveries family layout files item entry)
    (hfiles : ∀ id ≠ item.id, filesFor files id = filesFor run.archive.files id)
    (i : ℕ) (other : Item) (hother : (done ++ [item])[i]? = some other) :
    ∃ entry', (run.entries ++ [entry])[i]? = some entry' ∧
      FirstRow sha256 deliveries family layout files other entry' := by
  have hlength : run.entries.length = done.length := by
    simpa using congrArg List.length h.ids
  by_cases hi : i < done.length
  · rw [List.getElem?_append_left hi] at hother
    obtain ⟨entry', hentry', hrow'⟩ := h.rows i other hother
    rw [List.getElem?_append_left (by omega)]
    refine ⟨entry', hentry', hrow'.of_filesFor (hfiles _ ?_)⟩
    intro heq
    exact hnew (heq ▸ List.mem_map_of_mem (List.mem_of_getElem? hother))
  · rw [List.getElem?_append_right (by omega)] at hother ⊢
    obtain rfl : item = other := by
      rw [List.getElem?_singleton] at hother
      split_ifs at hother
      exact Option.some.inj hother
    rw [List.getElem?_singleton] at hother
    split_ifs at hother with hzero
    rw [hlength, List.getElem?_singleton, if_pos hzero]
    exact ⟨entry, rfl, hrow⟩

theorem exportItem_inline {id path : JsString}
    (h : containerOf family layout item = some (id, path)) :
    exportItem sha256 deliveries splitBytes family layout run item =
      { run with
        seen := run.seen + 1
        inlineCount := run.inlineCount + 1
        inlinedByParent := run.inlinedByParent.push id (item.id, run.entries.length)
        entries := run.entries ++ [freshEntry item (.inline id path) 0] } := by
  rw [exportItem, placementFor_of_container h]
  rfl

/-- The row of an item with a file, once it is written. -/
def writtenEntry (item : Item) (path note : JsString) (part : ℕ) (verified : Bool)
    (error : JsString) : ManifestEntry :=
  { freshEntry item (.file path note) part with verified, error }

theorem exportItem_file (sha256 : Bytes → JsString) (deliveries : JsString → Delivery Bytes)
    (splitBytes : ℕ) (h : containerOf family layout item = none)
    (hused : ∀ path ∈ family.pathById.map Prod.snd, path ∈ run.used) :
    ∃ note used' archive' part verified error,
      exportItem sha256 deliveries splitBytes family layout run item =
        { run with
          used := used'
          archive := archive'
          seen := run.seen + 1
          written := if verified then run.written + 1 else run.written
          failedCount := if verified then run.failedCount else run.failedCount + 1
          partByParentId :=
            if verified ∧ item.id ∈ family.parents then run.partByParentId.set item.id part
            else run.partByParentId
          entries := run.entries ++
            [writtenEntry item (filePath family layout run.used item) note part verified error] } ∧
      (∀ path, path ∈ used' ↔ path ∈ run.used ∨ path = filePath family layout run.used item) ∧
      archive'.files = run.archive.files ++
        filesOf deliveries item part (filePath family layout run.used item) ∧
      (verified ↔ Intact sha256 deliveries item) := by
  obtain ⟨note, used', hplacement, hused'⟩ := placementFor_of_none h hused
  obtain ⟨archive', part, verified, error, hwrite, hfiles, hverified⟩ :=
    writeNative_spec sha256 deliveries splitBytes run.archive item
      (show (freshEntry item (.file (filePath family layout run.used item) note)
        run.archive.partNumber).verified = false from rfl)
  refine ⟨note, used', archive', part, verified, error, ?_, hused', hfiles, hverified⟩
  rw [exportItem, hplacement]
  simp only [hwrite]
  cases verified with
  | true =>
    simp only [if_true, true_and]
    rfl
  | false =>
    simp only [Bool.false_eq_true, if_false, false_and]
    rfl

/-- **One item of the first pass.** -/
theorem FirstPass.step (h : FirstPass sha256 deliveries family layout done run)
    (hnew : item.id ∉ done.map Item.id) :
    FirstPass sha256 deliveries family layout (done ++ [item])
      (exportItem sha256 deliveries splitBytes family layout run item) := by
  have hnone : filesFor run.archive.files item.id = [] := by
    rw [filesFor, List.filter_eq_nil_iff]
    intro f hf hid
    exact hnew (of_decide_eq_true hid ▸ h.files f hf)
  rcases hcontainer : containerOf family layout item with _ | ⟨id, path⟩
  · obtain ⟨note, used', archive', part, verified, error, hitem, hused', hfiles, hverified⟩ :=
      exportItem_file sha256 deliveries splitBytes hcontainer h.used
    rw [hitem]
    refine ⟨?_, ?_, ?_, ?_, ?_, ?_, ?_, ?_, ?_, ?_⟩
    · rw [List.map_append, List.map_append, h.ids]
      rfl
    · refine h.rows_concat hnew (.inr ⟨hcontainer, ⟨rfl, rfl, rfl, hverified, ?_⟩, run.used,
        h.used, rfl⟩) ?_
      · rw [hfiles, filesFor_append_filesOf, hnone, if_pos rfl]
        rfl
      · intro id hid
        rw [hfiles, filesFor_append_filesOf, if_neg hid.symm, List.append_nil]
    · intro f hf
      rw [hfiles] at hf
      rw [List.map_append, List.mem_append]
      rcases List.mem_append.mp hf with hf | hf
      · exact .inl (h.files f hf)
      · exact .inr (List.mem_singleton.mpr (mem_filesOf hf))
    · exact fun path hpath => (hused' path).mpr (.inl (h.used path hpath))
    · intro id part'
      have hold : ∀ entry ∈ run.entries, entry.evidenceItemId ≠ item.id := by
        intro entry hentry heq
        apply hnew
        rw [← h.ids, ← heq]
        exact List.mem_map_of_mem hentry
      simp only [List.mem_append, List.mem_singleton, or_and_right, exists_or, exists_eq_left]
      by_cases hset : verified ∧ item.id ∈ family.parents
      · rw [if_pos hset, JsMap.get?_set]
        by_cases hid : item.id = id
        · subst hid
          rw [if_pos rfl, Option.some.injEq]
          refine ⟨?_, ?_⟩
          · rintro rfl
            exact ⟨hset.2, .inr ⟨rfl, decide_eq_true ⟨rfl, hset.1⟩, rfl⟩⟩
          · rintro ⟨-, ⟨entry, hentry, hentryId, -⟩ | ⟨-, -, hpart⟩⟩
            · exact absurd hentryId (hold entry hentry)
            · exact hpart
        · rw [if_neg hid, h.parts]
          refine and_congr_right fun _ => (or_iff_left ?_).symm
          rintro ⟨hentryId, -⟩
          exact hid hentryId
      · rw [if_neg hset, h.parts]
        refine and_congr_right fun hparent => (or_iff_left ?_).symm
        rintro ⟨rfl, hverifiedFile, -⟩
        exact hset ⟨(of_decide_eq_true hverifiedFile).2, hparent⟩
    · rw [h.filed, filedRows_concat, if_neg (by rintro ⟨⟩), List.append_nil]
    · rw [h.seen, List.length_append]
      rfl
    · rw [h.written, List.countP_append]
      cases verified <;> rfl
    · rw [h.failedCount, List.countP_append]
      cases verified <;> rfl
    · rw [h.inlineCount, List.countP_append]
      rfl
  · rw [exportItem_inline hcontainer]
    refine ⟨?_, ?_, ?_, h.used, ?_, ?_, ?_, ?_, ?_, ?_⟩
    · rw [List.map_append, List.map_append, h.ids]
      rfl
    · exact h.rows_concat hnew (.inl ⟨rfl, rfl, rfl, rfl, hcontainer, hnone⟩) fun _ _ => rfl
    · intro f hf
      rw [List.map_append, List.mem_append]
      exact .inl (h.files f hf)
    · intro id' part
      rw [h.parts]
      refine and_congr_right fun _ => exists_congr fun entry => and_congr_left fun hentry => ?_
      rw [List.mem_append, List.mem_singleton, or_iff_left]
      rintro rfl
      exact absurd hentry.2.1 Bool.false_ne_true
    · have hinline : (freshEntry item (.inline id path) 0).placement = .inline := rfl
      rw [filedRows_concat, if_pos hinline, JsMap.group_append_singleton, ← h.filed]
      rfl
    · rw [h.seen, List.length_append]
      rfl
    · rw [h.written, List.countP_append]
      rfl
    · rw [h.failedCount, List.countP_append]
      rfl
    · rw [h.inlineCount, List.countP_append]
      rfl

/-- **The first pass.** -/
theorem firstPass_exportItems {items : List Item} (hitems : (items.map Item.id).Nodup) :
    FirstPass sha256 deliveries family layout items
      (exportItems sha256 deliveries splitBytes family layout items) := by
  induction items using List.reverseRecOn with
  | nil => exact firstPass_start
  | append_singleton items item ih =>
    obtain ⟨hnodup, hnew⟩ := nodup_of_concat hitems
    rw [exportItems, List.foldl_append]
    exact (ih hnodup).step hnew

/-! ## What is rescued -/

/-- The row stands at a place as the row of an attachment whose holder was not written. -/
def Orphan (run : Run Bytes) (id : JsString) (i : ℕ) : Prop :=
  ∃ entry, run.entries[i]? = some entry ∧ entry.placement = .inline ∧
    entry.evidenceItemId = id ∧ run.partByParentId.get? entry.containerItemId = none

theorem mem_orphaned (h : run.inlinedByParent = .group (filedRows run.entries)) {id : JsString}
    {i : ℕ} : (id, i) ∈ (orphaned run).flatMap Prod.snd ↔ Orphan run id i := by
  simp only [orphaned, h, List.mem_flatMap, List.mem_filter, Option.isNone_iff_eq_none]
  refine ⟨?_, ?_⟩
  · rintro ⟨⟨holder, filed⟩, ⟨hgroup, hlost⟩, hmem⟩
    obtain ⟨rfl, -⟩ := JsMap.mem_group_iff.mp hgroup
    obtain ⟨entry, hentry, hinline, rfl, hid⟩ := mem_filedRows.mp (JsMap.mem_valuesAt.mp hmem)
    exact ⟨entry, hentry, hinline, hid, hlost⟩
  · rintro ⟨entry, hentry, hinline, hid, hlost⟩
    have hmem : (id, i) ∈ JsMap.valuesAt (filedRows run.entries) entry.containerItemId :=
      JsMap.mem_valuesAt.mpr (mem_filedRows.mpr ⟨entry, hentry, hinline, rfl, hid⟩)
    exact ⟨(entry.containerItemId, _),
      ⟨JsMap.mem_group_iff.mpr ⟨rfl, List.ne_nil_of_mem hmem⟩, hlost⟩, hmem⟩

/-- What is looked up is an orphan, -/
theorem orphan_of_get? (h : run.inlinedByParent = .group (filedRows run.entries)) {id : JsString}
    {i : ℕ} (hget : (byItemId run).get? id = some i) : Orphan run id i := by
  rw [byItemId, JsMap.get?_ofEntries] at hget
  exact (mem_orphaned h).mp (JsMap.mem_valuesAt.mp (List.mem_of_getLast? hget))

/-- and every orphan is looked up. -/
theorem mem_keys_byItemId (h : run.inlinedByParent = .group (filedRows run.entries))
    {id : JsString} : id ∈ (byItemId run).map Prod.fst ↔ ∃ i, Orphan run id i := by
  rw [byItemId, JsMap.keys_ofEntries, mem_distinct, List.mem_map]
  refine ⟨?_, ?_⟩
  · rintro ⟨⟨_, i⟩, hmem, rfl⟩
    exact ⟨i, (mem_orphaned h).mp hmem⟩
  · rintro ⟨i, horphan⟩
    exact ⟨(id, i), (mem_orphaned h).mpr horphan, rfl⟩

/-- The row of a rescued item, once it is written. -/
def rescuedEntry (entry : ManifestEntry) (path : JsString) (part : ℕ) (verified : Bool)
    (error : JsString) : ManifestEntry :=
  { entry with
    placement := .file
    archivePath := path
    containerPath := []
    containerItemId := []
    note := rescuedNote
    archivePart := part
    verified
    error }

theorem rescueItem_eq (sha256 : Bytes → JsString) (deliveries : JsString → Delivery Bytes)
    (splitBytes : ℕ) (family : FamilyIndex) (layout : AttachmentLayout)
    {filed : JsMap JsString ℕ} {i : ℕ} (hget : filed.get? item.id = some i)
    (hentry : run.entries[i]? = some entry) (hverified : entry.verified = false) :
    ∃ archive' part verified error,
      rescueItem sha256 deliveries splitBytes family layout filed run item =
        { run with
          used := (allocatePath family layout run.used item).2
          archive := archive'
          entries := run.entries.set i
            (rescuedEntry entry (allocatePath family layout run.used item).1 part verified error)
          inlineCount := run.inlineCount - 1
          written := if verified then run.written + 1 else run.written
          failedCount := if verified then run.failedCount else run.failedCount + 1 } ∧
      archive'.files = run.archive.files ++
        filesOf deliveries item part (allocatePath family layout run.used item).1 ∧
      (verified ↔ Intact sha256 deliveries item) := by
  have hnew : ({ entry with
      placement := .file
      archivePath := (allocatePath family layout run.used item).1
      containerPath := []
      containerItemId := []
      note := rescuedNote } : ManifestEntry).verified = false := hverified
  obtain ⟨archive', part, verified, error, hwrite, hfiles, hintact⟩ :=
    writeNative_spec sha256 deliveries splitBytes run.archive item hnew
  refine ⟨archive', part, verified, error, ?_, hfiles, hintact⟩
  rw [rescueItem, hget]
  simp only [hentry, hwrite]
  rfl

/-- What the second pass keeps up; `first` is where it began. -/
structure SecondPass (sha256 : Bytes → JsString) (deliveries : JsString → Delivery Bytes)
    (family : FamilyIndex) (layout : AttachmentLayout) (items : List Item) (first : Run Bytes)
    (done : List Item) (run : Run Bytes) : Prop where
  ids : run.entries.map ManifestEntry.evidenceItemId = items.map Item.id
  kept : ∀ (i : ℕ) item, items[i]? = some item → item.id ∉ done.map Item.id →
    ∃ entry, first.entries[i]? = some entry ∧ run.entries[i]? = some entry ∧
      FirstRow sha256 deliveries family layout run.archive.files item entry
  rescued : ∀ (i : ℕ) item, items[i]? = some item → item.id ∈ done.map Item.id →
    ∃ entry, run.entries[i]? = some entry ∧
      FileRow sha256 deliveries run.archive.files item entry
  used : ∀ path ∈ family.pathById.map Prod.snd, path ∈ run.used
  parts : run.partByParentId = first.partByParentId
  filed : run.inlinedByParent = first.inlinedByParent
  seen : run.seen = items.length
  written : run.written = run.entries.countP VerifiedFile
  failedCount : run.failedCount = run.entries.countP FailedFile
  inlineCount : run.inlineCount = run.entries.countP IsInline

theorem FirstPass.secondPass {items : List Item}
    (h : FirstPass sha256 deliveries family layout items run) :
    SecondPass sha256 deliveries family layout items run [] run where
  ids := h.ids
  kept i item hitem _ := by
    obtain ⟨entry, hentry, hrow⟩ := h.rows i item hitem
    exact ⟨entry, hentry, hentry, hrow⟩
  rescued i item _ hnil := absurd hnil (List.not_mem_nil)
  used := h.used
  parts := rfl
  filed := rfl
  seen := h.seen
  written := h.written
  failedCount := h.failedCount
  inlineCount := h.inlineCount

/-- The place of an item among items with different ids is where its row is. -/
theorem getElem?_of_id {items : List Item} {entries : List ManifestEntry}
    (hids : entries.map ManifestEntry.evidenceItemId = items.map Item.id)
    (hnodup : (items.map Item.id).Nodup) (hitem : item ∈ items) {i : ℕ}
    (hentry : entries[i]? = some entry) (hid : entry.evidenceItemId = item.id) :
    items[i]? = some item := by
  have hat : (items.map Item.id)[i]? = some item.id := by
    rw [← hids, List.getElem?_map, hentry, Option.map_some, hid]
  rw [List.getElem?_map] at hat
  obtain ⟨found, hfound, heq⟩ := Option.map_eq_some_iff.mp hat
  rw [hfound, List.inj_on_of_nodup_map hnodup (List.mem_of_getElem? hfound) hitem heq]

/-- Putting a row in the place of another changes no counts but by the two. -/
theorem countP_set_row {entries : List ManifestEntry} {i : ℕ} (hentry : entries[i]? = some entry)
    (p : ManifestEntry → Bool) (entry' : ManifestEntry) :
    (entries.set i entry').countP p + (if p entry then 1 else 0) =
      entries.countP p + if p entry' then 1 else 0 := by
  obtain ⟨hi, rfl⟩ := List.getElem?_eq_some_iff.mp hentry
  have hle := List.boole_getElem_le_countP (p := p) hi
  rw [List.countP_set hi]
  omega

theorem map_set_row {entries : List ManifestEntry} {i : ℕ} (hentry : entries[i]? = some entry)
    {entry' : ManifestEntry} (hid : entry'.evidenceItemId = entry.evidenceItemId) :
    (entries.set i entry').map ManifestEntry.evidenceItemId =
      entries.map ManifestEntry.evidenceItemId := by
  apply List.ext_getElem?
  intro j
  rw [List.getElem?_map, List.getElem?_map, List.getElem?_set]
  split_ifs with hij hlt
  · subst hij
    rw [hentry, Option.map_some, Option.map_some, hid]
  · subst hij
    exact absurd (List.getElem?_eq_some_iff.mp hentry).1 hlt
  · rfl

/-- **One item of the second pass.** -/
theorem SecondPass.step {items : List Item} {first : Run Bytes}
    (h : SecondPass sha256 deliveries family layout items first done run)
    (hfirst : FirstPass sha256 deliveries family layout items first)
    (hnodup : (items.map Item.id).Nodup) (hitem : item ∈ items)
    (hnew : item.id ∉ done.map Item.id) {i : ℕ}
    (hget : (byItemId first).get? item.id = some i) :
    SecondPass sha256 deliveries family layout items first (done ++ [item])
      (rescueItem sha256 deliveries splitBytes family layout (byItemId first) run item) := by
  obtain ⟨entry, hentry, hinline, hid, -⟩ := orphan_of_get? hfirst.filed hget
  have hplace := getElem?_of_id hfirst.ids hnodup hitem hentry hid
  obtain ⟨_, hentry', hrun, hrow⟩ := h.kept i item hplace hnew
  obtain rfl := Option.some.inj (hentry.symm.trans hentry')
  obtain hrow | ⟨-, hrow, -⟩ := hrow
  swap
  · rw [hrow.placement] at hinline
    cases hinline
  obtain ⟨archive', part, verified, error, hrescue, hfiles, hintact⟩ :=
    rescueItem_eq sha256 deliveries splitBytes family layout hget hrun hrow.verified
  have hsame : ∀ {j : ℕ} {x : Item}, items[j]? = some x → x.id = item.id → j = i ∧ x = item := by
    intro j x hx hxid
    obtain rfl := List.inj_on_of_nodup_map hnodup (List.mem_of_getElem? hx) hitem hxid
    have hlt := (List.getElem?_eq_some_iff.mp hx).1
    exact ⟨(List.getElem?_inj hlt (List.Nodup.of_map _ hnodup)).mp (hx.trans hplace.symm), rfl⟩
  have hother : ∀ {id : JsString}, id ≠ item.id →
      filesFor archive'.files id = filesFor run.archive.files id := by
    intro id hne
    rw [hfiles, filesFor_append_filesOf, if_neg hne.symm, List.append_nil]
  rw [hrescue]
  refine ⟨?_, ?_, ?_, ?_, h.parts, h.filed, h.seen, ?_, ?_, ?_⟩
  · rw [← h.ids]
    exact map_set_row hrun rfl
  · intro j x hx hdone
    rw [List.map_append, List.mem_append, not_or] at hdone
    have hne : x.id ≠ item.id := fun heq => hdone.2 (List.mem_singleton.mpr heq)
    obtain ⟨entry', hfirst', hrun', hrow'⟩ := h.kept j x hx hdone.1
    refine ⟨entry', hfirst', ?_, hrow'.of_filesFor (hother hne)⟩
    rw [List.getElem?_set_ne, hrun']
    rintro rfl
    exact hne (congrArg Item.id (Option.some.inj (hx.symm.trans hplace)))
  · intro j x hx hdone
    by_cases heq : x.id = item.id
    · obtain ⟨rfl, rfl⟩ := hsame hx heq
      refine ⟨_, List.getElem?_set_self (List.getElem?_eq_some_iff.mp hrun).1, hid, rfl, hrow.digest,
        hintact, ?_⟩
      rw [hfiles, filesFor_append_filesOf, hrow.files, if_pos rfl]
      rfl
    · rw [List.map_append, List.mem_append] at hdone
      have hbefore := hdone.resolve_right fun hmem => heq (List.mem_singleton.mp hmem)
      obtain ⟨entry', hrun', hrow'⟩ := h.rescued j x hx hbefore
      refine ⟨entry', ?_, hrow'.of_filesFor (hother heq)⟩
      rw [List.getElem?_set_ne, hrun']
      rintro rfl
      exact heq (congrArg Item.id (Option.some.inj (hx.symm.trans hplace)))
  · exact fun path hpath => mem_allocatePath.mpr (.inl (h.used path hpath))
  · have hcount := countP_set_row hrun VerifiedFile (rescuedEntry entry
      (allocatePath family layout run.used item).1 part verified error)
    rw [if_neg (by simp [VerifiedFile, hrow.placement]), Nat.add_zero] at hcount
    rw [hcount, h.written]
    cases verified <;> rfl
  · have hcount := countP_set_row hrun FailedFile (rescuedEntry entry
      (allocatePath family layout run.used item).1 part verified error)
    rw [if_neg (by simp [FailedFile, hrow.placement]), Nat.add_zero] at hcount
    rw [hcount, h.failedCount]
    cases verified <;> rfl
  · have hcount := countP_set_row hrun IsInline (rescuedEntry entry
      (allocatePath family layout run.used item).1 part verified error)
    rw [if_pos (by simp [IsInline, hrow.placement]), if_neg (by simp [IsInline, rescuedEntry])]
      at hcount
    rw [h.inlineCount]
    dsimp only
    omega

/-- **The second pass.** -/
theorem secondPass_rescue (splitBytes : ℕ) {tables : Tables} {items : List Item} {first : Run Bytes}
    (h : FirstPass sha256 deliveries family layout items first)
    (hnodup : (items.map Item.id).Nodup) (htables : ∀ item ∈ items, item ∈ tables.items) :
    ∃ done, SecondPass sha256 deliveries family layout items first done
        (rescue sha256 deliveries splitBytes family layout tables first) ∧
      ∀ id, id ∈ done.map Item.id ↔ ∃ i, Orphan first id i := by
  have hloaded : ∀ {item : Item}, item ∈ (loadItemsInBatches tables
      ((byItemId first).map Prod.fst)).flatten ↔ item ∈ tables.items ∧ ∃ i, Orphan first item.id i := by
    intro item
    rw [mem_loadItemsInBatches, mem_keys_byItemId h.filed]
  have hkeys : ((byItemId first).map Prod.fst).Nodup := by
    rw [byItemId, JsMap.keys_ofEntries]
    exact nodup_distinct _
  have hrows := nodup_loadItemsInBatches tables hkeys
  -- an orphan is one of the items
  have hitem : ∀ {id : JsString} {i : ℕ}, Orphan first id i → ∃ item ∈ items, item.id = id := by
    rintro id i ⟨entry, hentry, -, rfl, -⟩
    rw [← List.mem_map, ← h.ids]
    exact List.mem_map_of_mem (List.mem_of_getElem? hentry)
  refine ⟨(loadItemsInBatches tables ((byItemId first).map Prod.fst)).flatten, ?_, ?_⟩
  · rw [rescue]
    have hall : ∀ item ∈ (loadItemsInBatches tables ((byItemId first).map Prod.fst)).flatten,
        item ∈ tables.items ∧ ∃ i, Orphan first item.id i := fun item hmem => hloaded.mp hmem
    generalize (loadItemsInBatches tables ((byItemId first).map Prod.fst)).flatten = done at hrows hall
    clear hloaded
    induction done using List.reverseRecOn with
    | nil => exact h.secondPass
    | append_singleton done last ih =>
      obtain ⟨hdone, hnew⟩ := nodup_of_concat hrows
      obtain ⟨hlast, i, horphan⟩ :=
        hall last (List.mem_append_right _ (List.mem_singleton_self last))
      obtain ⟨item, hmem, hid⟩ := hitem horphan
      obtain rfl := tables.eq_of_id_eq (htables item hmem) hlast hid
      have hkey : item.id ∈ (byItemId first).map Prod.fst :=
        (mem_keys_byItemId h.filed).mpr ⟨i, horphan⟩
      obtain ⟨j, hget⟩ := JsMap.get?_of_mem hkey
      rw [List.foldl_append]
      exact (ih hdone fun x hx => hall x (List.mem_append_left _ hx)).step h hnodup hmem hnew hget
  · intro id
    rw [List.mem_map]
    refine ⟨?_, ?_⟩
    · rintro ⟨item, hmem, rfl⟩
      exact (hloaded.mp hmem).2
    · rintro ⟨i, horphan⟩
      obtain ⟨item, hmem, rfl⟩ := hitem horphan
      exact ⟨item, hloaded.mpr ⟨htables item hmem, i, horphan⟩, rfl⟩

/-! ## The parts of what is inside -/

theorem getLast?_eq_of_forall {α : Type} {l : List α} {a : α} (hne : l ≠ [])
    (h : ∀ b ∈ l, b = a) : l.getLast? = some a := by
  rw [List.getLast?_eq_some_getLast hne, h _ (List.getLast_mem hne)]

/-- What a row is after the last loop. -/
theorem getElem?_foldl_fillPart (entries : List ManifestEntry) (ws : List (ℕ × ℕ)) (i : ℕ) :
    (ws.foldl fillPart entries)[i]? = entries[i]?.map fun entry =>
      match (JsMap.valuesAt ws i).getLast? with
      | some part =>
        if entry.placement = .inline then { entry with archivePart := part } else entry
      | none => entry := by
  induction ws using List.reverseRecOn with
  | nil => simp [JsMap.valuesAt]
  | append_singleton ws w ih =>
    obtain ⟨j, part⟩ := w
    have hvalues : JsMap.valuesAt (ws ++ [(j, part)]) i =
        JsMap.valuesAt ws i ++ if j = i then [part] else [] := by
      by_cases hji : j = i <;> simp [JsMap.valuesAt, hji]
    rw [List.foldl_append, List.foldl_cons, List.foldl_nil, fillPart, List.getElem?_modify, ih,
      hvalues]
    rcases entries[i]? with _ | entry
    · rfl
    · by_cases hji : j = i
      · rw [if_pos hji, List.getLast?_concat]
        -- an earlier part is written over, and the placement is not touched
        rcases (JsMap.valuesAt ws i).getLast? with _ | earlier
        · simp [hji]
        · by_cases hinline : entry.placement = .inline <;> simp [hji, hinline]
      · rw [if_neg hji, List.append_nil]
        simp [hji]

/-- The parts that are written are those of the holders. -/
theorem mem_partsOfInlined {entries : List ManifestEntry}
    (h : run.inlinedByParent = .group (filedRows entries)) {i part : ℕ} :
    (i, part) ∈ partsOfInlined run ↔ ∃ entry, entries[i]? = some entry ∧
      entry.placement = .inline ∧
        run.partByParentId.get? entry.containerItemId = some part := by
  rw [partsOfInlined, h, List.mem_flatMap]
  refine ⟨?_, ?_⟩
  · rintro ⟨⟨holder, filed⟩, hgroup, hmem⟩
    obtain ⟨rfl, -⟩ := JsMap.mem_group_iff.mp hgroup
    rcases hpart : run.partByParentId.get? holder with _ | part'
    · simp only [hpart] at hmem
      cases hmem
    · simp only [hpart] at hmem
      obtain ⟨⟨id, _⟩, hfiled, ⟨⟩⟩ := List.mem_map.mp hmem
      obtain ⟨entry, hentry, hinline, rfl, -⟩ := mem_filedRows.mp (JsMap.mem_valuesAt.mp hfiled)
      exact ⟨entry, hentry, hinline, hpart⟩
  · rintro ⟨entry, hentry, hinline, hpart⟩
    have hfiled : (entry.evidenceItemId, i) ∈
        JsMap.valuesAt (filedRows entries) entry.containerItemId :=
      JsMap.mem_valuesAt.mpr (mem_filedRows.mpr ⟨entry, hentry, hinline, rfl, rfl⟩)
    refine ⟨(entry.containerItemId, _),
      JsMap.mem_group_iff.mpr ⟨rfl, List.ne_nil_of_mem hfiled⟩, ?_⟩
    simp only [hpart]
    exact List.mem_map.mpr ⟨_, hfiled, rfl⟩

/-! ## A finished run -/

/-- The row of an item in the manifest. A row that is still `inline` has the part in which the
holder was verified. -/
inductive FinalRow (sha256 : Bytes → JsString) (deliveries : JsString → Delivery Bytes)
    (family : FamilyIndex) (layout : AttachmentLayout) (first : Run Bytes)
    (files : List (ArchiveFile Bytes)) (item : Item) (entry : ManifestEntry) : Prop where
  /-- a file, in the first pass -/
  | file (container : containerOf family layout item = none)
      (row : FileRow sha256 deliveries files item entry) (used : List JsString)
      (hused : ∀ path ∈ family.pathById.map Prod.snd, path ∈ used)
      (path : entry.archivePath = filePath family layout used item)
  /-- a file, in the second pass -/
  | rescued (container : containerOf family layout item ≠ none)
      (row : FileRow sha256 deliveries files item entry)
      (lost : ∀ id path, containerOf family layout item = some (id, path) →
        first.partByParentId.get? id = none)
  /-- inside its holder -/
  | inline (row : InlineRow family layout files item entry)
      (part : first.partByParentId.get? entry.containerItemId = some entry.archivePart)

/-- The last loop changes parts of rows that are `inline`, and nothing else. -/
theorem map_fillParts {β : Type} (f : ManifestEntry → β)
    (hf : ∀ (entry : ManifestEntry) (part : ℕ), f { entry with archivePart := part } = f entry)
    (run : Run Bytes) : (fillParts run).map f = run.entries.map f := by
  apply List.ext_getElem?
  intro i
  rw [List.getElem?_map, List.getElem?_map, fillParts, getElem?_foldl_fillPart, Option.map_map]
  congr 1
  funext entry
  rw [Function.comp_apply]
  split
  · split_ifs
    · exact hf entry _
    · rfl
  · rfl

/-- A row that is a file stays what it is. -/
theorem getElem?_fillParts_file {i : ℕ} (hentry : run.entries[i]? = some entry)
    (hfile : entry.placement = .file) : (fillParts run)[i]? = some entry := by
  rw [fillParts, getElem?_foldl_fillPart, hentry, Option.map_some]
  split
  · rw [if_neg (by rw [hfile]; rintro ⟨⟩)]
  · rfl

/-- **The rows of a finished run.** -/
theorem finalRows {items : List Item} (hnodup : (items.map Item.id).Nodup) {first : Run Bytes}
    (hfirst : FirstPass sha256 deliveries family layout items first)
    (hsecond : SecondPass sha256 deliveries family layout items first done run)
    (hdone : ∀ id, id ∈ done.map Item.id ↔ ∃ i, Orphan first id i) (i : ℕ)
    (hitem : items[i]? = some item) :
    ∃ entry, (fillParts run)[i]? = some entry ∧
      FinalRow sha256 deliveries family layout first run.archive.files item entry := by
  have hmem := List.mem_of_getElem? hitem
  by_cases hrescued : item.id ∈ done.map Item.id
  · obtain ⟨entry, hentry, hrow⟩ := hsecond.rescued i item hitem hrescued
    refine ⟨entry, getElem?_fillParts_file hentry hrow.placement, ?_⟩
    -- the row that the item had after the first pass
    obtain ⟨j, entry', hentry', hinline, hid, hlost⟩ := (hdone item.id).mp hrescued
    have hplace := getElem?_of_id hfirst.ids hnodup hmem hentry' hid
    obtain ⟨_, hentry'', hrow'⟩ := hfirst.rows j item hplace
    obtain rfl := Option.some.inj (hentry'.symm.trans hentry'')
    obtain hrow' | ⟨-, hrow', -⟩ := hrow'
    · refine .rescued (by rw [hrow'.container]; rintro ⟨⟩) hrow ?_
      intro id path hcontainer
      rw [hrow'.container] at hcontainer
      cases hcontainer
      exact hlost
    · rw [hrow'.placement] at hinline
      cases hinline
  · obtain ⟨entry, hfirstEntry, hentry, hrow⟩ := hsecond.kept i item hitem hrescued
    obtain hrow | ⟨hnone, hrow, used, hused, hpath⟩ := hrow
    · have hpart : first.partByParentId.get? entry.containerItemId ≠ none := by
        intro hlost
        exact hrescued ((hdone item.id).mpr ⟨i, entry, hfirstEntry, hrow.placement, hrow.id, hlost⟩)
      obtain ⟨part, hpart⟩ := Option.ne_none_iff_exists'.mp hpart
      have hwrites : ∀ part', part' ∈ JsMap.valuesAt (partsOfInlined run) i ↔ part' = part := by
        intro part'
        rw [JsMap.mem_valuesAt, mem_partsOfInlined (hsecond.filed.trans hfirst.filed),
          hsecond.parts]
        refine ⟨?_, ?_⟩
        · rintro ⟨entry', hentry', -, hpart'⟩
          obtain rfl := Option.some.inj (hfirstEntry.symm.trans hentry')
          exact Option.some.inj (hpart'.symm.trans hpart)
        · rintro rfl
          exact ⟨entry, hfirstEntry, hrow.placement, hpart⟩
      have hlast := getLast?_eq_of_forall (List.ne_nil_of_mem ((hwrites part).mpr rfl))
        fun part' hpart' => (hwrites part').mp hpart'
      refine ⟨{ entry with archivePart := part }, ?_, .inline ⟨hrow.id, hrow.placement,
        hrow.digest, hrow.verified, hrow.container, hrow.files⟩ hpart⟩
      rw [fillParts, getElem?_foldl_fillPart, hentry, Option.map_some, hlast]
      exact congrArg some (if_pos hrow.placement)
    · exact ⟨entry, getElem?_fillParts_file hentry hrow.placement, .file hnone hrow used hused hpath⟩

end Rows

end AegCloudDfir.Export
