import AegCloudDfir.Export.Accounting
import AegCloudDfir.Lib.Transition

/-!
# Unpacking a native export

The hash list of an export names the files that were verified, and whoever unpacks the parts
expects to find them under their paths, and nothing else. Two things are in the way. A native is
streamed into the archive while it is hashed, so what turns out to be something else is in there
already. And a path that is taken is changed once, by a piece of the id, without a look whether
the changed path is taken too.
-/

namespace AegCloudDfir.Export

section Unpacking

variable {Bytes : Type} (sha256 : Bytes → JsString) (deliveries : JsString → Delivery Bytes)
  (splitBytes : ℕ) (family : FamilyIndex) (layout : AttachmentLayout)

/-- The parts unpack to what the hash list says. -/
structure Unpacks (result : NativeExport Bytes) : Prop where
  /-- no path was appended twice -/
  paths : (result.files.map ArchiveFile.path).Nodup
  /-- every line of the hash list is about one file, which has that digest -/
  listed : ∀ line ∈ result.hashlist, ∃ file,
    (result.files.filter fun f => f.path = line.2) = [file] ∧ sha256 file.bytes = line.1
  /-- and there is no other file -/
  complete : ∀ f ∈ result.files, f.path ∈ result.hashlist.map Prod.snd

/-- The path that was decided for an item, if it is used. -/
def reservedPath (item : Item) : Option JsString :=
  if layout = .inline ∧ item.firstAttachment = none then family.pathById.get? item.id else none

/-- The path that an item gets is free, if it was decided beforehand, or if it is the one with
the id. -/
def PathFree (run : Run Bytes) (item : Item) : Option JsString → Prop
  | some path => path ∉ run.archive.files.map ArchiveFile.path
  | none => plainPath family layout item ∈ run.used →
      withIdSuffix (plainPath family layout item) item.id ∉ run.archive.files.map ArchiveFile.path

/-- What is read of the native of an item, if anything, is the native, and the path is free. -/
def Clear (run : Run Bytes) (item : Item) (reserved : Option JsString) : Prop :=
  streamed deliveries item ≠ none →
    Intact sha256 deliveries item ∧ PathFree family layout run item reserved

/-- The items of the second pass. -/
def rescuedItems (tables : Tables) (run : Run Bytes) : List Item :=
  (loadItemsInBatches tables ((byItemId run).map Prod.fst)).flatten

/-- Every item that gets a file is clear when its turn comes. -/
structure ClearRun (tables : Tables) (items : List Item) : Prop where
  first : ∀ before item after, items = before ++ item :: after →
    containerOf family layout item = none →
      Clear sha256 deliveries family layout
        (exportItems sha256 deliveries splitBytes family layout before) item
        (reservedPath family layout item)
  second : ∀ before item after,
    rescuedItems tables (exportItems sha256 deliveries splitBytes family layout items) =
        before ++ item :: after →
      Clear sha256 deliveries family layout
        (before.foldl (rescueItem sha256 deliveries splitBytes family layout
            (byItemId (exportItems sha256 deliveries splitBytes family layout items)))
          (exportItems sha256 deliveries splitBytes family layout items)) item none

variable {sha256 deliveries splitBytes family layout}

/-- What is appended for an item, whatever the row said before. -/
theorem files_writeNative (sha256 : Bytes → JsString) (deliveries : JsString → Delivery Bytes)
    (splitBytes : ℕ) (archive : Archive Bytes) (item : Item) (entry : ManifestEntry) :
    ∃ part, (writeNative sha256 deliveries splitBytes archive item entry).1.files =
      archive.files ++ filesOf deliveries item part entry.archivePath := by
  have hsame : (writeNative sha256 deliveries splitBytes archive item entry).1 =
      (writeNative sha256 deliveries splitBytes archive item { entry with verified := false }).1 := by
    rw [writeNative, writeNative]
    split_ifs
    · rfl
    · cases deliveries item.id with
      | unavailable => rfl
      | interrupted => rfl
      | complete =>
        dsimp only
        split_ifs <;> rfl
  obtain ⟨archive', part, verified, error, hwrite, hfiles, -⟩ :=
    writeNative_spec sha256 deliveries splitBytes archive item
      (show ({ entry with verified := false } : ManifestEntry).verified = false from rfl)
  refine ⟨part, ?_⟩
  rw [hsame, hwrite]
  exact hfiles

theorem filePath_eq (used : List JsString) (item : Item) :
    filePath family layout used item =
      (reservedPath family layout item).getD (allocatePath family layout used item).1 := by
  rw [filePath, reservedPath]
  split_ifs <;> rfl

/-! ## One item -/

/-- The paths of the files, and those that were decided beforehand, are used. -/
structure PathsUsed (family : FamilyIndex) (run : Run Bytes) : Prop where
  reserved : ∀ path ∈ family.pathById.map Prod.snd, path ∈ run.used
  files : ∀ f ∈ run.archive.files, f.path ∈ run.used

/-- The paths are different, and the files are natives that are intact. -/
structure Sound (sha256 : Bytes → JsString) (deliveries : JsString → Delivery Bytes)
    (items : List Item) (files : List (ArchiveFile Bytes)) : Prop where
  paths : (files.map ArchiveFile.path).Nodup
  intact : ∀ f ∈ files, ∃ item ∈ items, item.id = f.itemId ∧ Intact sha256 deliveries item

variable {items : List Item} {run : Run Bytes} {item : Item}

/-- A path is fresh if it is not one that may be taken. -/
theorem path_fresh_iff (hused : PathsUsed family run) (reserved : Option JsString) :
    reserved.getD (allocatePath family layout run.used item).1 ∉
        run.archive.files.map ArchiveFile.path ↔
      PathFree family layout run item reserved := by
  cases reserved with
  | some path => rfl
  | none =>
    rw [Option.getD_none, allocatePath_fst, PathFree]
    split_ifs with htaken
    · exact (imp_iff_right htaken).symm
    · refine iff_of_true ?_ fun h => absurd h htaken
      intro hmem
      obtain ⟨f, hf, hpath⟩ := List.mem_map.mp hmem
      exact htaken (hpath ▸ hused.files f hf)

/-- **A file that is appended** keeps the archive sound exactly if the item was clear. -/
theorem sound_append_iff (hitems : (items.map Item.id).Nodup) (hitem : item ∈ items)
    (hused : PathsUsed family run) (reserved : Option JsString) {files : List (ArchiveFile Bytes)}
    {part : ℕ} {path : JsString}
    (hpath : path = reserved.getD (allocatePath family layout run.used item).1)
    (hfiles : files = run.archive.files ++ filesOf deliveries item part path) :
    Sound sha256 deliveries items files ↔
      Sound sha256 deliveries items run.archive.files ∧
        Clear sha256 deliveries family layout run item reserved := by
  subst hfiles
  rw [Clear, ← path_fresh_iff hused, ← hpath, filesOf]
  rcases streamed deliveries item with _ | bytes
  · simp
  · have hname : [(⟨part, path, item.id, bytes⟩ : ArchiveFile Bytes)].map ArchiveFile.path =
        [path] := rfl
    refine ⟨?_, ?_⟩
    · rintro ⟨hpaths, hintact⟩
      rw [List.map_append, Option.toList_some, List.map_singleton, hname,
        List.nodup_append_comm, List.singleton_append, List.nodup_cons] at hpaths
      refine ⟨⟨hpaths.2, fun f hf => hintact f (List.mem_append_left _ hf)⟩, fun _ => ⟨?_, hpaths.1⟩⟩
      obtain ⟨other, hother, hid, hother'⟩ :=
        hintact _ (List.mem_append_right _ (List.mem_singleton_self _))
      obtain rfl := List.inj_on_of_nodup_map hitems hother hitem hid
      exact hother'
    · rintro ⟨⟨hpaths, hintact⟩, hclear⟩
      obtain ⟨hitemIntact, hfresh⟩ := hclear (by rintro ⟨⟩)
      refine ⟨?_, ?_⟩
      · rw [List.map_append, Option.toList_some, List.map_singleton, hname,
          List.nodup_append_comm, List.singleton_append, List.nodup_cons]
        exact ⟨hfresh, hpaths⟩
      · intro f hf
        rcases List.mem_append.mp hf with hf | hf
        · exact hintact f hf
        · obtain rfl := List.mem_singleton.mp hf
          exact ⟨item, hitem, rfl, hitemIntact⟩

/-! ## The passes -/

theorem pathsUsed_exportItem (hused : PathsUsed family run) (item : Item) :
    PathsUsed family (exportItem sha256 deliveries splitBytes family layout run item) := by
  rcases hcontainer : containerOf family layout item with _ | ⟨id, path⟩
  · obtain ⟨note, used', archive', part, verified, error, hitem, hused', hfiles, -⟩ :=
      exportItem_file sha256 deliveries splitBytes hcontainer hused.reserved
    rw [hitem]
    refine ⟨?_, ?_⟩
    · exact fun path hpath => (hused' path).mpr (.inl (hused.reserved path hpath))
    · intro f hf
      rw [hfiles] at hf
      rcases List.mem_append.mp hf with hf | hf
      · exact (hused' _).mpr (.inl (hused.files f hf))
      · obtain ⟨bytes, -, rfl⟩ := List.mem_map.mp hf
        exact (hused' _).mpr (.inr rfl)
  · rw [exportItem_inline hcontainer]
    exact ⟨hused.reserved, hused.files⟩

theorem sound_exportItem_iff (hitems : (items.map Item.id).Nodup) (hitem : item ∈ items)
    (hused : PathsUsed family run) :
    Sound sha256 deliveries items
        (exportItem sha256 deliveries splitBytes family layout run item).archive.files ↔
      Sound sha256 deliveries items run.archive.files ∧ (containerOf family layout item = none →
        Clear sha256 deliveries family layout run item (reservedPath family layout item)) := by
  rcases hcontainer : containerOf family layout item with _ | ⟨id, path⟩
  · obtain ⟨note, used', archive', part, verified, error, hexport, -, hfiles, -⟩ :=
      exportItem_file sha256 deliveries splitBytes hcontainer hused.reserved
    rw [hexport, imp_iff_right rfl]
    exact sound_append_iff hitems hitem hused _ (filePath_eq run.used item) hfiles
  · rw [exportItem_inline hcontainer]
    exact (and_iff_left (by rintro ⟨⟩)).symm

/-- **The first pass** is sound exactly if every item was clear. -/
theorem sound_exportItems_iff (hitems : (items.map Item.id).Nodup) :
    PathsUsed family (exportItems sha256 deliveries splitBytes family layout items) ∧
      (Sound sha256 deliveries items
          (exportItems sha256 deliveries splitBytes family layout items).archive.files ↔
        ∀ before item after, items = before ++ item :: after →
          containerOf family layout item = none →
            Clear sha256 deliveries family layout
              (exportItems sha256 deliveries splitBytes family layout before) item
              (reservedPath family layout item)) := by
  have hstart : PathsUsed family (Run.start family : Run Bytes) :=
    ⟨fun path hpath => mem_distinct.mpr hpath, by rintro f ⟨⟩⟩
  have hsound : Sound sha256 deliveries items (Run.start family : Run Bytes).archive.files :=
    ⟨List.nodup_nil, by rintro f ⟨⟩⟩
  obtain ⟨hused, hiff⟩ := Transition.foldl_iff
    (exportItem sha256 deliveries splitBytes family layout) (PathsUsed family)
    (fun run => Sound sha256 deliveries items run.archive.files)
    (fun run item => containerOf family layout item = none →
      Clear sha256 deliveries family layout run item (reservedPath family layout item))
    items hstart (fun run item _ hused => pathsUsed_exportItem hused item)
    fun run item hitem hused => sound_exportItem_iff hitems hitem hused
  exact ⟨hused, hiff.trans (and_iff_right hsound)⟩

/-- What a rescued item does to the archive. -/
theorem files_rescueItem (sha256 : Bytes → JsString) (deliveries : JsString → Delivery Bytes)
    (splitBytes : ℕ) (family : FamilyIndex) (layout : AttachmentLayout) {filed : JsMap JsString ℕ} {i : ℕ}
    (hget : filed.get? item.id = some i) (hi : i < run.entries.length) :
    ∃ part, (rescueItem sha256 deliveries splitBytes family layout filed run item).archive.files =
        run.archive.files ++
          filesOf deliveries item part (allocatePath family layout run.used item).1 ∧
      (rescueItem sha256 deliveries splitBytes family layout filed run item).used =
        (allocatePath family layout run.used item).2 ∧
      (rescueItem sha256 deliveries splitBytes family layout filed run item).entries.length =
        run.entries.length := by
  have hentry : run.entries[i]? = some run.entries[i] := List.getElem?_eq_getElem hi
  rw [rescueItem, hget]
  simp only [hentry]
  obtain ⟨part, hfiles⟩ := files_writeNative sha256 deliveries splitBytes run.archive item
    { run.entries[i] with
      placement := .file
      archivePath := (allocatePath family layout run.used item).1
      containerPath := []
      containerItemId := []
      note := rescuedNote }
  exact ⟨part, hfiles, trivial, List.length_set⟩

/-- **The second pass** keeps the archive sound exactly if every item was clear. -/
theorem sound_rescue_iff {tables : Tables} {first : Run Bytes}
    (hitems : (items.map Item.id).Nodup) (htables : ∀ item ∈ items, item ∈ tables.items)
    (hfirst : FirstPass sha256 deliveries family layout items first)
    (hused : PathsUsed family first) :
    Sound sha256 deliveries items
        (rescue sha256 deliveries splitBytes family layout tables first).archive.files ↔
      Sound sha256 deliveries items first.archive.files ∧
        ∀ before item after, rescuedItems tables first = before ++ item :: after →
          Clear sha256 deliveries family layout
            (before.foldl (rescueItem sha256 deliveries splitBytes family layout (byItemId first))
              first) item none := by
  have hrescued : ∀ item ∈ rescuedItems tables first, item ∈ items ∧
      ∃ i, (byItemId first).get? item.id = some i ∧ i < first.entries.length := by
    intro item hitem
    obtain ⟨htable, hkey⟩ := mem_loadItemsInBatches.mp hitem
    obtain ⟨i, hget⟩ := JsMap.get?_of_mem hkey
    obtain ⟨entry, hentry, -, hid, -⟩ := orphan_of_get? hfirst.filed hget
    have hmem : item.id ∈ items.map Item.id := by
      rw [← hfirst.ids, ← hid]
      exact List.mem_map_of_mem (List.mem_of_getElem? hentry)
    obtain ⟨other, hother, hid'⟩ := List.mem_map.mp hmem
    obtain rfl := tables.eq_of_id_eq (htables other hother) htable hid'
    exact ⟨hother, i, hget, (List.getElem?_eq_some_iff.mp hentry).1⟩
  have hloop := Transition.foldl_iff
    (rescueItem sha256 deliveries splitBytes family layout (byItemId first))
    (fun run => PathsUsed family run ∧ run.entries.length = first.entries.length)
    (fun run => Sound sha256 deliveries items run.archive.files)
    (fun run item => Clear sha256 deliveries family layout run item none)
    (rescuedItems tables first) ⟨hused, rfl⟩ ?_ ?_
  · exact hloop.2
  · rintro run item hitem ⟨hused, hlength⟩
    obtain ⟨-, i, hget, hi⟩ := hrescued item hitem
    obtain ⟨part, hfiles, hused', hlength'⟩ := files_rescueItem sha256 deliveries splitBytes family
      layout hget (hlength.symm ▸ hi)
    refine ⟨⟨fun path hpath => ?_, fun f hf => ?_⟩, hlength'.trans hlength⟩
    · rw [hused', mem_allocatePath]
      exact .inl (hused.reserved path hpath)
    · rw [hused', mem_allocatePath]
      rw [hfiles] at hf
      rcases List.mem_append.mp hf with hf | hf
      · exact .inl (hused.files f hf)
      · obtain ⟨bytes, -, rfl⟩ := List.mem_map.mp hf
        exact .inr rfl
  · rintro run item hitem ⟨hused, hlength⟩
    obtain ⟨hitem, i, hget, hi⟩ := hrescued item hitem
    obtain ⟨part, hfiles, -, -⟩ := files_rescueItem sha256 deliveries splitBytes family layout hget
      (hlength.symm ▸ hi)
    exact sound_append_iff hitems hitem hused none rfl hfiles

/-! ## A finished run -/

section Finished

variable {done : List Item} {first : Run Bytes}

/-- A path that was appended once is that of one file. -/
theorem filter_path_eq {files : List (ArchiveFile Bytes)}
    (hpaths : (files.map ArchiveFile.path).Nodup) {f : ArchiveFile Bytes} (hf : f ∈ files) :
    (files.filter fun g => g.path = f.path) = [f] := by
  obtain ⟨before, after, rfl⟩ := List.append_of_mem hf
  rw [List.map_append, List.map_cons, List.nodup_middle, List.nodup_cons, ← List.map_append] at hpaths
  have hother : ∀ g ∈ before ++ after, ¬ g.path = f.path :=
    fun g hg heq => hpaths.1 (heq ▸ List.mem_map_of_mem hg)
  have hnone : ∀ {gs : List (ArchiveFile Bytes)}, (∀ g ∈ gs, g ∈ before ++ after) →
      (gs.filter fun g => g.path = f.path) = [] := by
    intro gs hgs
    rw [List.filter_eq_nil_iff]
    intro g hg
    simpa using hother g (hgs g hg)
  rw [List.filter_append, hnone fun g hg => List.mem_append_left _ hg,
    List.filter_cons_of_pos (by simp), hnone fun g hg => List.mem_append_right _ hg,
    List.nil_append]

/-- A file in the hash list is that of an item with an intact native. -/
theorem intact_of_listed (hfirst : FirstPass sha256 deliveries family layout items first)
    (hsecond : SecondPass sha256 deliveries family layout items first done run)
    (hdone : ∀ id, id ∈ done.map Item.id ↔ ∃ i, Orphan first id i)
    (hnodup : (items.map Item.id).Nodup) {entry : ManifestEntry} (hentry : entry ∈ fillParts run)
    (hverified : entry.verified) (hfile : entry.placement = .file) :
    ∃ item ∈ items, Intact sha256 deliveries item ∧
      ∃ f ∈ run.archive.files, f.itemId = item.id ∧ f.path = entry.archivePath ∧
        sha256 f.bytes = entry.sha256 := by
  obtain ⟨item, hitem, hrow⟩ := item_of_row hfirst hsecond hdone hnodup hentry
  have hfileRow : FileRow sha256 deliveries run.archive.files item entry := by
    rcases hrow with ⟨-, hrow, -, -, -⟩ | ⟨-, hrow, -⟩ | ⟨hrow, -⟩
    · exact hrow
    · exact hrow
    · rw [hrow.placement] at hfile
      cases hfile
  obtain ⟨bytes, hfiles, hdigest⟩ := hfileRow.appended hverified
  refine ⟨item, hitem, hfileRow.verified.mp hverified, _,
    List.mem_of_mem_filter (hfiles ▸ List.mem_singleton_self _), hfileRow.id, rfl, hdigest⟩

/-- **The parts unpack to the hash list** exactly if the archive is sound. -/
theorem unpacks_iff_sound (hfirst : FirstPass sha256 deliveries family layout items first)
    (hsecond : SecondPass sha256 deliveries family layout items first done run)
    (hdone : ∀ id, id ∈ done.map Item.id ↔ ∃ i, Orphan first id i)
    (hnodup : (items.map Item.id).Nodup) :
    Unpacks sha256 (⟨fillParts run, run.seen, run.written, run.inlineCount, run.failedCount,
        run.archive.files⟩ : NativeExport Bytes) ↔
      Sound sha256 deliveries items run.archive.files := by
  refine ⟨?_, ?_⟩
  · rintro ⟨hpaths, -, hcomplete⟩
    refine ⟨hpaths, fun f hf => ?_⟩
    obtain ⟨line, hline, hpath⟩ := List.mem_map.mp (hcomplete f hf)
    obtain ⟨entry, hentry, rfl⟩ := List.mem_map.mp hline
    obtain ⟨hmem, hlisted⟩ := List.mem_filter.mp hentry
    obtain ⟨hverified, hfile⟩ := of_decide_eq_true hlisted
    obtain ⟨item, hitem, hintact, g, hg, hid, hpath', -⟩ :=
      intact_of_listed hfirst hsecond hdone hnodup hmem hverified hfile
    obtain rfl := List.inj_on_of_nodup_map hpaths hg hf (hpath'.trans hpath)
    exact ⟨item, hitem, hid.symm, hintact⟩
  · rintro ⟨hpaths, hintact⟩
    refine ⟨hpaths, ?_, ?_⟩
    · intro line hline
      obtain ⟨entry, hentry, rfl⟩ := List.mem_map.mp hline
      obtain ⟨hmem, hlisted⟩ := List.mem_filter.mp hentry
      obtain ⟨hverified, hfile⟩ := of_decide_eq_true hlisted
      obtain ⟨item, hitem, -, g, hg, -, hpath, hdigest⟩ :=
        intact_of_listed hfirst hsecond hdone hnodup hmem hverified hfile
      refine ⟨g, ?_, hdigest⟩
      rw [← hpath]
      exact filter_path_eq hpaths hg
    · intro f hf
      obtain ⟨item, hitem, hid, hitemIntact⟩ := hintact f hf
      obtain ⟨entry, hentry, hrow⟩ := row_of_item hfirst hsecond hdone hnodup hitem
      have hmem : f ∈ filesFor run.archive.files item.id :=
        List.mem_filter.mpr ⟨hf, decide_eq_true hid.symm⟩
      have hfileRow : FileRow sha256 deliveries run.archive.files item entry := by
        rcases hrow with ⟨-, hrow, -, -, -⟩ | ⟨-, hrow, -⟩ | ⟨hrow, -⟩
        · exact hrow
        · exact hrow
        · rw [hrow.files] at hmem
          cases hmem
      rw [hfileRow.files] at hmem
      obtain ⟨bytes, -, rfl⟩ := List.mem_map.mp hmem
      refine List.mem_map.mpr ⟨(entry.sha256, entry.archivePath), ?_, rfl⟩
      refine List.mem_map.mpr ⟨entry, List.mem_filter.mpr ⟨hentry, ?_⟩, rfl⟩
      exact decide_eq_true ⟨hfileRow.verified.mpr hitemIntact, hfileRow.placement⟩

end Finished

end Unpacking

/-! ## A native that is not what it was -/

/-- A file. -/
def changedFile : Item := exampleItem (js "f1") .file (js "f") []

theorem nodup_changed : ([changedFile].map Item.id).Nodup := by
  decide

/-- The file alone. -/
def changedFiles : Tables where
  items := [changedFile]
  primaryKey := nodup_changed

/-- It arrives whole, and it is something else. -/
def arrivesChanged (_ : JsString) : Delivery JsString := .complete (js "other")

end AegCloudDfir.Export
