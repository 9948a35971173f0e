import AegCloudDfir.Production.Dat
import AegCloudDfir.Production.Validator

/-!
# Opticon load files

`packages/production/src/opt.ts` and the volumes of `packages/production/src/layout.ts`: where the
images of a production are put, and the file that says so, with a line of seven fields for every
page. A page may name its volume; if it does not, the default of the file is written.

* `readOpt_buildOptFile` — a file that is built reads as the lines of its pages.
* `filter_isBreak`, `pageCount_eq` — the breaks are the first pages of the documents, and count the
  lines up to the next break.
* `volumeDirectory_imagePath` — the directory of an image is the volume of its index.
-/

namespace AegCloudDfir.Production

open PrefixCode Split Traversal

/-! ## Volumes -/

/-- `IMAGES_PER_VOLUME` -/
def imagesPerVolume : ℕ := 1000

/-- `volumeLabel` of an index, which is never negative. -/
def volumeLabel (imageIndex perVolume : ℕ) : Except ProductionError JsString :=
  if perVolume < 1 then
    .error ⟨js "imagesPerVolume must be a positive integer, got " ++ decimal perVolume⟩
  else .ok (js "VOL" ++ paddedDecimal 3 (imageIndex / perVolume + 1))

/-- `IMAGE_EXTENSIONS`. Nothing is rendered for the format `none`. -/
def imageExtension : ImageFormat → JsString
  | .tiffG4 => js ".tif"
  | .jpeg => js ".jpg"
  | .pdf => js ".pdf"
  | .none => []

/-- `imagePath` -/
def imagePath (batesNumber : JsString) (format : ImageFormat) (imageIndex perVolume : ℕ) :
    Except ProductionError JsString := do
  let volume ← volumeLabel imageIndex perVolume
  pure (joinWith (js "/") [js "IMAGES", volume, batesNumber ++ imageExtension format])

/-! ## The file -/

/-- `OptPage` -/
structure OptPage where
  batesNumber : JsString
  imagePath : JsString
  volumeLabel : Option JsString

/-- `OptDocument` -/
structure OptDocument where
  pages : List OptPage

/-- A line of the file. -/
structure OptLine where
  batesNumber : JsString
  volumeLabel : JsString
  imagePath : JsString
  docBreak : JsString
  folderBreak : JsString
  boxBreak : JsString
  pageCount : JsString
  deriving DecidableEq

/-- The line of a page. -/
def optLineOf (defaultVolumeLabel : JsString) (pageCount : ℕ) (page : OptPage) (index : ℕ) :
    OptLine where
  batesNumber := page.batesNumber
  volumeLabel := page.volumeLabel.getD defaultVolumeLabel
  imagePath := page.imagePath
  docBreak := if index = 0 then js "Y" else []
  folderBreak := []
  boxBreak := []
  pageCount := if index = 0 then decimal pageCount else []

/-- `fields` -/
def OptLine.fields (line : OptLine) : List JsString :=
  [line.batesNumber, line.volumeLabel, line.imagePath, line.docBreak, line.folderBreak,
    line.boxBreak, line.pageCount]

/-- `field.includes(',') || field.includes('\r') || field.includes('\n')` -/
def breaksField (field : JsString) : Bool :=
  unitOf ',' ∈ field ∨ (0x0D : CodeUnit) ∈ field ∨ (0x0A : CodeUnit) ∈ field

/-- A line as it is written, with its fields checked. -/
def OptLine.write (line : OptLine) : Except ProductionError JsString :=
  match line.fields.find? breaksField with
  | some field =>
    .error ⟨js "OPT field contains a delimiter or newline: \"" ++ field ++ js "\""⟩
  | none => .ok (joinWith (js ",") line.fields)

/-- The lines of a document. -/
def OptDocument.lines (defaultVolumeLabel : JsString) (document : OptDocument) : List OptLine :=
  document.pages.mapIdx fun index page =>
    optLineOf defaultVolumeLabel document.pages.length page index

/-- The lines of a document as they are written. -/
def OptDocument.write (defaultVolumeLabel : JsString) (document : OptDocument) :
    Except ProductionError (List JsString) :=
  if document.pages.length = 0 then .error ⟨js "OPT document must have at least one page"⟩
  else (document.lines defaultVolumeLabel).mapM OptLine.write

/-- `buildOptFile` -/
def buildOptFile (documents : List OptDocument) (defaultVolumeLabel : JsString) :
    Except ProductionError JsString := do
  let written ← documents.mapM fun document => document.write defaultVolumeLabel
  let lines := written.flatten
  pure (if lines.length = 0 then [] else joinWith (js "\r\n") lines ++ js "\r\n")

/-! ## Reading the file -/

/-- A line has seven fields. -/
def readOptLine (line : JsString) : Option OptLine :=
  match splitWord (js ",") line with
  | [batesNumber, volumeLabel, imagePath, docBreak, folderBreak, boxBreak, pageCount] =>
    some ⟨batesNumber, volumeLabel, imagePath, docBreak, folderBreak, boxBreak, pageCount⟩
  | _ => none

/-- The lines of a file, each ended by CRLF. -/
def readOpt (text : JsString) : Option (List OptLine) :=
  let lines := splitWord (js "\r\n") text
  if lines.getLast? = some [] then lines.dropLast.mapM readOptLine else none

/-- A document begins here. -/
def OptLine.isBreak (line : OptLine) : Bool := line.docBreak = js "Y"

/-- `IMAGES/<volume>/...` -/
def volumeDirectory (path : JsString) : Option JsString :=
  match splitWord (js "/") path with
  | images :: volume :: _ :: _ => if images = js "IMAGES" then some volume else none
  | _ => none

section Lines

variable {defaultVolumeLabel : JsString}

theorem breaksField_eq_false {field : JsString} :
    breaksField field = false ↔
      unitOf ',' ∉ field ∧ (0x0D : CodeUnit) ∉ field ∧ (0x0A : CodeUnit) ∉ field := by
  rw [breaksField, decide_eq_false_iff_not, not_or, not_or]

/-- A line is written if no field breaks it. -/
theorem OptLine.write_eq_ok {line : OptLine} {text : JsString} :
    line.write = .ok text ↔
      (∀ field ∈ line.fields, breaksField field = false) ∧
        text = joinWith (js ",") line.fields := by
  rw [write]
  rcases hfind : line.fields.find? breaksField with _ | field
  · refine ⟨?_, ?_⟩
    · rintro ⟨⟩
      refine ⟨fun field hfield => ?_, rfl⟩
      simpa using List.find?_eq_none.mp hfind field hfield
    · rintro ⟨-, rfl⟩
      rfl
  · refine ⟨fun h => (nomatch h), ?_⟩
    rintro ⟨hfields, -⟩
    have hbreaks := List.find?_some hfind
    rw [hfields field (List.mem_of_find?_eq_some hfind)] at hbreaks
    exact absurd hbreaks Bool.false_ne_true

theorem unbordered_comma : Unbordered (js ",") := unbordered_of_not_mem (List.not_mem_nil)

theorem unbordered_slash : Unbordered (js "/") := unbordered_of_not_mem (List.not_mem_nil)

theorem unbordered_crlf : Unbordered (js "\r\n") :=
  unbordered_of_not_mem (show (0x0D : CodeUnit) ∉ [0x0A] by decide)

/-- What is written reads as the line. -/
theorem readOptLine_write {line : OptLine} {text : JsString} (h : line.write = .ok text) :
    readOptLine text = some line := by
  obtain ⟨hfields, rfl⟩ := OptLine.write_eq_ok.mp h
  have hsplit : splitWord (js ",") (joinWith (js ",") line.fields) = line.fields := by
    have hne : line.fields ≠ [] := List.cons_ne_nil _ _
    rw [joinWith, splitWord_join unbordered_comma (List.cons_ne_nil _ _) hne]
    refine flatMap_splitWord_eq_self fun field hfield hinside => ?_
    have hcomma := (breaksField_eq_false.mp (hfields field hfield)).1
    exact hcomma (hinside.subset (List.mem_cons_self ..))
  rw [readOptLine, hsplit]
  rfl

/-- What is written is one line. -/
theorem not_crlf_infix_write {line : OptLine} {text : JsString} (h : line.write = .ok text) :
    ¬ js "\r\n" <:+: text := by
  obtain ⟨hfields, rfl⟩ := OptLine.write_eq_ok.mp h
  intro hinside
  have hmem : (0x0D : CodeUnit) ∈ joinWith (js ",") line.fields :=
    hinside.subset (List.mem_cons_self ..)
  rcases mem_of_mem_join hmem with hcomma | ⟨field, hfield, hcr⟩
  · exact absurd hcomma (by decide)
  · exact (breaksField_eq_false.mp (hfields field hfield)).2.1 hcr

theorem OptDocument.write_eq_ok {document : OptDocument} {written : List JsString} :
    document.write defaultVolumeLabel = .ok written ↔ document.pages ≠ [] ∧
      List.Forall₂ (fun line text => line.write = .ok text) (document.lines defaultVolumeLabel)
        written := by
  rw [write]
  split_ifs with hlength
  · have hpages : document.pages = [] := List.length_eq_zero_iff.mp hlength
    exact ⟨fun h => (nomatch h), fun h => absurd hpages h.1⟩
  · rw [mapM_eq_ok_iff]
    exact ⟨fun h => ⟨fun hpages => hlength (List.length_eq_zero_iff.mpr hpages), h⟩, And.right⟩

/-- The lines of the file, and what they are written as. -/
theorem forall₂_write {documents : List OptDocument} {written : List (List JsString)}
    (h : List.Forall₂ (fun document lines => document.write defaultVolumeLabel = .ok lines)
      documents written) :
    List.Forall₂ (fun line text => line.write = .ok text)
      (documents.flatMap (OptDocument.lines defaultVolumeLabel)) written.flatten := by
  induction h with
  | nil => exact .nil
  | cons hdocument _ ih =>
    rw [List.flatMap_cons, List.flatten_cons]
    exact List.rel_append (OptDocument.write_eq_ok.mp hdocument).2 ih

/-- **The file reads as its pages.** What is built of some documents, none of which is empty, reads
as the lines of their pages. -/
theorem readOpt_buildOptFile {documents : List OptDocument} {text : JsString}
    (h : buildOptFile documents defaultVolumeLabel = .ok text) :
    (∀ document ∈ documents, document.pages ≠ []) ∧
      readOpt text = some (documents.flatMap (OptDocument.lines defaultVolumeLabel)) := by
  obtain ⟨written, hwritten, h⟩ := bind_eq_ok.mp h
  have hlines := forall₂_write (mapM_eq_ok_iff.mp hwritten)
  have hread : written.flatten.mapM readOptLine =
      some (documents.flatMap (OptDocument.lines defaultVolumeLabel)) :=
    mapM_eq_some_iff_forall₂.mpr (hlines.imp fun _ _ => readOptLine_write).flip
  refine ⟨fun document hdocument => ?_, ?_⟩
  · obtain ⟨_, -, hok⟩ := exists_ok_of_mapM hwritten document hdocument
    exact (OptDocument.write_eq_ok.mp hok).1
  obtain rfl := Except.ok.inj h
  have hfile : (if written.flatten.length = 0 then [] else
      joinWith (js "\r\n") written.flatten ++ js "\r\n") =
        written.flatten.flatMap fun line => line ++ js "\r\n" := by
    split_ifs with hlength
    · rw [List.length_eq_zero_iff.mp hlength]
      rfl
    · exact joinWith_append_self fun hnil => hlength (List.length_eq_zero_iff.mpr hnil)
  have hsplit : splitWord (js "\r\n") (written.flatten.flatMap fun line => line ++ js "\r\n") =
      written.flatten ++ [[]] := by
    rw [splitWord_terminated unbordered_crlf (List.cons_ne_nil _ _), flatMap_splitWord_eq_self]
    intro line hline
    obtain ⟨_, -, hwrite⟩ := exists_of_forall₂_of_mem hlines hline
    exact not_crlf_infix_write hwrite
  rw [hfile, readOpt, hsplit, List.getLast?_concat, if_pos rfl, List.dropLast_concat, hread]

/-! ## Breaks -/

/-- The count on a break is that of the lines up to the next break. -/
def Counted (lines : List OptLine) : Prop :=
  ∀ before line after, lines = before ++ line :: after → line.isBreak = true →
    line.pageCount = decimal ((after.takeWhile fun l => !l.isBreak).length + 1)

/-- A document is a break with the number of its lines, and lines that are no breaks. -/
theorem OptDocument.lines_eq (defaultVolumeLabel : JsString) {document : OptDocument}
    (h : document.pages ≠ []) :
    ∃ page first rest, document.pages.head? = some page ∧
      document.lines defaultVolumeLabel = first :: rest ∧
      first = optLineOf defaultVolumeLabel document.pages.length page 0 ∧
      first.isBreak = true ∧ first.pageCount = decimal (rest.length + 1) ∧
      ∀ line ∈ rest, line.isBreak = false := by
  obtain ⟨page, pages, hpages⟩ := List.exists_cons_of_ne_nil h
  refine ⟨page, _, _, by rw [hpages]; rfl, by rw [lines, hpages, List.mapIdx_cons], rfl, rfl, ?_,
    ?_⟩
  · rw [List.length_mapIdx, hpages]
    rfl
  · intro line hline
    obtain ⟨index, _, rfl⟩ := List.mem_mapIdx.mp hline
    rfl

/-- Lines after a document that begin with a break, or are none, do not change its count. -/
theorem Counted.cons {first : OptLine} {rest more : List OptLine}
    (hcount : first.pageCount = decimal (rest.length + 1))
    (hrest : ∀ line ∈ rest, line.isBreak = false)
    (hstart : ∀ line ∈ more.head?, line.isBreak = true) (hmore : Counted more) :
    Counted (first :: rest ++ more) := by
  intro before line after hlines hbreak
  rw [List.cons_append] at hlines
  rcases before with _ | ⟨b, before⟩
  · -- the break of this document
    obtain ⟨rfl, rfl⟩ : first = line ∧ rest ++ more = after := List.cons.inj hlines
    have hstop : (more.takeWhile fun l => !l.isBreak) = [] := by
      rcases more with _ | ⟨line, more⟩
      · rfl
      · rw [List.takeWhile_cons, hstart line rfl]
        rfl
    have hnone : ∀ l ∈ rest, (!l.isBreak) = true := fun l hl => congrArg not (hrest l hl)
    rw [List.takeWhile_append_of_pos hnone, hstop, List.append_nil, hcount]
  · -- a break of a later one
    obtain ⟨rfl, htail⟩ : first = b ∧ rest ++ more = before ++ line :: after :=
      List.cons.inj hlines
    rcases List.append_eq_append_iff.mp htail with ⟨x, rfl, hmoreEq⟩ | ⟨y, rfl, hafter⟩
    · exact hmore x line after hmoreEq hbreak
    · rcases y with _ | ⟨l, y⟩
      · exact hmore [] line after hafter.symm hbreak
      · obtain ⟨rfl, -⟩ := List.cons.inj hafter
        rw [hrest line (List.mem_append_right _ (List.mem_cons_self ..))] at hbreak
        exact absurd hbreak Bool.false_ne_true

/-- The first line of some documents is a break. -/
theorem isBreak_of_mem_head? {documents : List OptDocument}
    (h : ∀ document ∈ documents, document.pages ≠ []) :
    ∀ line ∈ (documents.flatMap (OptDocument.lines defaultVolumeLabel)).head?,
      line.isBreak = true := by
  rcases documents with _ | ⟨document, rest⟩
  · intro line hline
    cases hline
  · obtain ⟨_, first, lines, -, hlines, -, hbreak, -⟩ :=
      OptDocument.lines_eq defaultVolumeLabel (h document (List.mem_cons_self ..))
    intro line hline
    rw [List.flatMap_cons, hlines] at hline
    obtain rfl := Option.some.inj hline
    exact hbreak

/-- **Page counts.** In the lines of some documents every break counts its lines. -/
theorem counted_lines {documents : List OptDocument}
    (h : ∀ document ∈ documents, document.pages ≠ []) :
    Counted (documents.flatMap (OptDocument.lines defaultVolumeLabel)) := by
  induction documents with
  | nil =>
    intro before line after hlines
    exact absurd hlines.symm (List.append_ne_nil_of_right_ne_nil _ (List.cons_ne_nil _ _))
  | cons document rest ih =>
    have hrest : ∀ d ∈ rest, d.pages ≠ [] := fun d hd => h d (.tail _ hd)
    obtain ⟨_, first, lines, -, hlines, -, -, hcount, hno⟩ :=
      OptDocument.lines_eq defaultVolumeLabel (h document (List.mem_cons_self ..))
    rw [List.flatMap_cons, hlines]
    exact Counted.cons hcount hno (isBreak_of_mem_head? hrest) (ih hrest)

/-- **Breaks.** The breaks are the lines of the first pages. -/
theorem filter_isBreak {documents : List OptDocument}
    (h : ∀ document ∈ documents, document.pages ≠ []) :
    (documents.flatMap (OptDocument.lines defaultVolumeLabel)).filter OptLine.isBreak =
      documents.filterMap fun document => document.pages.head?.map fun page =>
        optLineOf defaultVolumeLabel document.pages.length page 0 := by
  induction documents with
  | nil => rfl
  | cons document rest ih =>
    obtain ⟨page, first, lines, hpage, hlines, hfirst, hbreak, -, hno⟩ :=
      OptDocument.lines_eq defaultVolumeLabel (h document (List.mem_cons_self ..))
    have hnone : lines.filter OptLine.isBreak = [] := by
      refine List.filter_eq_nil_iff.mpr fun line hline => ?_
      rw [hno line hline]
      exact Bool.false_ne_true
    rw [List.flatMap_cons, List.filter_append, hlines, List.filter_cons_of_pos hbreak, hnone,
      ih fun d hd => h d (.tail _ hd), hfirst, List.filterMap_cons, hpage]
    rfl

end Lines

/-! ## Where images are put -/

theorem slash_not_mem_volumeLabel {imageIndex perVolume : ℕ} {volume : JsString}
    (h : volumeLabel imageIndex perVolume = .ok volume) : unitOf '/' ∉ volume := by
  rw [volumeLabel] at h
  split_ifs at h
  obtain rfl := Except.ok.inj h
  intro hmem
  rcases List.mem_append.mp hmem with hvol | hdigit
  · exact absurd hvol (by decide)
  · exact absurd (isDigit_of_mem_paddedDecimal hdigit) (by decide)

/-- A path is put together from the volume and the name. -/
theorem imagePath_eq_ok {batesNumber path : JsString} {format : ImageFormat}
    {imageIndex perVolume : ℕ} (h : imagePath batesNumber format imageIndex perVolume = .ok path) :
    ∃ volume, volumeLabel imageIndex perVolume = .ok volume ∧
      path = js "IMAGES" ++ (js "/" ++ (volume ++ (js "/" ++
        (batesNumber ++ imageExtension format)))) := by
  obtain ⟨volume, hvolume, h⟩ := bind_eq_ok.mp h
  obtain rfl := Except.ok.inj h
  refine ⟨volume, hvolume, ?_⟩
  rw [joinWith, join, join, join_singleton, List.append_assoc, List.append_assoc]

/-- **Volumes.** The directory of an image is the volume of its index. -/
theorem volumeDirectory_imagePath {batesNumber path : JsString} {format : ImageFormat}
    {imageIndex perVolume : ℕ} (h : imagePath batesNumber format imageIndex perVolume = .ok path) :
    ∃ volume, volumeLabel imageIndex perVolume = .ok volume ∧
      volumeDirectory path = some volume := by
  obtain ⟨volume, hvolume, rfl⟩ := imagePath_eq_ok h
  refine ⟨volume, hvolume, ?_⟩
  have hfree : ∀ {part : JsString}, unitOf '/' ∉ part → splitWord (js "/") part = [part] :=
    fun hpart => splitWord_eq_singleton fun hinside =>
      hpart (hinside.subset (List.mem_cons_self ..))
  obtain ⟨first, rest, hname⟩ := List.exists_cons_of_ne_nil
    (splitWord_ne_nil (js "/") (batesNumber ++ imageExtension format))
  rw [volumeDirectory, splitWord_append unbordered_slash (List.cons_ne_nil _ _),
    splitWord_append unbordered_slash (List.cons_ne_nil _ _), hfree (by decide),
    hfree (slash_not_mem_volumeLabel hvolume), hname]
  rfl

/-- Paths of one format name different numbers differently. -/
theorem batesNumber_eq_of_imagePath {a b path : JsString} {format : ImageFormat} {i j perVolume : ℕ}
    (ha : imagePath a format i perVolume = .ok path)
    (hb : imagePath b format j perVolume = .ok path) : a = b := by
  obtain ⟨v, hv, rfl⟩ := imagePath_eq_ok ha
  obtain ⟨w, hw, hpath⟩ := imagePath_eq_ok hb
  rw [List.append_right_inj, List.append_right_inj] at hpath
  have hnames := (first_inj (slash_not_mem_volumeLabel hv) (slash_not_mem_volumeLabel hw) hpath).2
  exact List.append_cancel_right hnames

end AegCloudDfir.Production
