import AegCloudDfir.Production.Attachments
import AegCloudDfir.Production.Opt

/-!
# Rendering a run

The part of `processProductionRun` (`apps/worker/src/processors/production-run.ts`) that makes
images: every item of the run is rendered, or a placeholder is, and put where the next image goes;
in the end the OPT file is written from the paths. Natives, texts and exceptions are not modelled.

What renders is a parameter (`ProductionDeps`). Its errors are what `sanitizeError` makes of them.
The pages of an item depend on nothing but the item, so that the documents are those of `produce`
(`processProductionRun_of_renderRun`).

The volume of a path goes up with every 1000 images of a run, but all lines of the OPT file say
`VOL001`. So the file is right exactly for runs of at most 1000 items (`optMatches_iff`).
-/

namespace AegCloudDfir.Production

open Evidence (Buffer)

/-- `loadFileFormats` -/
inductive LoadFileFormat : Type where
  | dat
  | opt
  | csv
  deriving DecidableEq

/-- `outputKind`, as far as rendering decides it. -/
inductive OutputKind : Type where
  | image
  | native
  | placeholder
  deriving DecidableEq

/-- What renders: `ProductionDeps`, and the store. -/
structure ProductionDeps (Id : Type) where
  rasterizerAvailable : Bool
  /-- `readAllCapped` of what is stored for an item -/
  readBlob : Id → Except JsString Buffer
  assembleImagePdf : Buffer → JsString → Except JsString Buffer
  /-- `hasText` -/
  validateNoTextLayer : Buffer → Except JsString Bool
  /-- of a reason, an item and its number -/
  renderPlaceholder : JsString → Id → JsString → Except JsString Buffer
  stamp : Buffer → List JsString → Except JsString Buffer

/-- A run, with what is read of its items. -/
structure FrozenRun (Id : Type) where
  tables : Tables Id
  selectionItemIds : List Id
  parameters : ProductionParameters Id
  loadFileFormats : List LoadFileFormat
  /-- `params.stamps.length > 0` -/
  hasStamps : Bool
  /-- of the reservation -/
  startNumber : ℕ
  mimeType : Id → JsString
  /-- `emailMetadata.bodyPlain`, empty if there is none -/
  bodyPlain : Id → JsString

/-! ## Pages -/

/-- `\s` in Latin-1 -/
def isLatin1Space (c : CodeUnit) : Bool := (0x09 ≤ c ∧ c ≤ 0x0D) ∨ c = 0x20 ∨ c = 0xA0

/-- How much of a text, from its beginning on, is a match of `/\/Type\s*\/Page[^s]/`. -/
def pageMatch (text : JsString) : Option ℕ := do
  let rest ← text.dropPrefix? (js "/Type")
  let spaces := rest.takeWhile isLatin1Space
  let rest ← (rest.dropWhile isLatin1Space).dropPrefix? (js "/Page")
  match rest with
  | c :: _ => if c = unitOf 's' then none else some (spaces.length + 11)
  | [] => none

/-- The number of matches, behind some units that still belong to the last one. -/
def countMatches : ℕ → JsString → ℕ
  | _, [] => 0
  | skip + 1, _ :: rest => countMatches skip rest
  | 0, c :: rest =>
    match pageMatch (c :: rest) with
    | some length => countMatches (length - 1) rest + 1
    | none => countMatches 0 rest

/-- `countPdfPagesApprox` -/
def countPdfPagesApprox (pdf : Buffer) : ℕ :=
  let pages := countMatches 0 (pdf.map fun b => Fin.ofNat 0x10000 b.val)
  if pages > 0 then pages else 1

/-! ## An item -/

/-- What an item is rendered as. -/
structure Rendered where
  pdfBytes : Option Buffer
  pageCount : ℕ
  placeholderReason : JsString
  outputKind : OutputKind

/-- To become a placeholder, for some reason. -/
def Rendered.placeholder (reason : JsString) : Rendered := ⟨none, 1, reason, .placeholder⟩

/-- To become an image. -/
def Rendered.image (pdf : Buffer) (pageCount : ℕ) : Rendered := ⟨some pdf, pageCount, [], .image⟩

/-- The message of an error. -/
def BatesError.message : BatesError → JsString
  | .production message => message
  | .overflow message => message

section Item

variable {Id : Type} [LinearOrder Id] (deps : ProductionDeps Id) (run : FrozenRun Id)

/-- `item.redactions.length > 0`, where the final ones are loaded. -/
def FrozenRun.hasFinalRedactions (id : Id) : Bool :=
  run.tables.redactions.any fun row => row.evidenceItemId = id ∧ row.stage = .final

/-- `item.blob !== null` -/
def FrozenRun.hasBlob (id : Id) : Bool :=
  run.tables.items.any fun item => item.id = id ∧ item.blobId.isSome

/-- `bestText` -/
def FrozenRun.bestText (id : Id) : Option JsString :=
  if run.bodyPlain id = [] then none else some (run.bodyPlain id)

/-- `renderRedacted`, and the gate behind it: nothing if there is a text layer. -/
def renderRedacted : Except JsString (Option Buffer) := do
  let candidate ← deps.assembleImagePdf [] (js "png")
  let hasText ← deps.validateNoTextLayer candidate
  pure (if hasText then none else some candidate)

/-- The body of the `try` block. -/
def renderItem (counter : BatesCounter) (entry : SortableProductionItem Id) :
    Except JsString Rendered :=
  let id := entry.evidenceId
  let mime := run.mimeType id
  if run.hasFinalRedactions id then
    if !deps.rasterizerAvailable then
      .ok (.placeholder (js "final redactions could not be burned to images " ++
        js "(rasterizer unavailable); placeholder produced to prevent redacted-content leakage"))
    else do
      match ← renderRedacted deps with
      | none =>
        pure (.placeholder (js "redacted rendering failed the no-text-layer validation gate; " ++
          js "placeholder produced"))
      | some pdf => pure (.image pdf (countPdfPagesApprox pdf))
  else if run.parameters.output = .nativesOnly then .ok ⟨none, 1, [], .native⟩
  else if mime = js "application/pdf" ∧ run.hasBlob id then do
    let pdf ← deps.readBlob id
    pure (.image pdf (countPdfPagesApprox pdf))
  else if (mime = js "image/png" ∨ mime = js "image/jpeg") ∧ run.hasBlob id then do
    let image ← deps.readBlob id
    let pdf ← deps.assembleImagePdf image (if mime = js "image/png" then js "png" else js "jpeg")
    pure (.image pdf 1)
  else if (run.bestText id).isSome ∨ id ∈ run.tables.extractedTexts then do
    -- `counter.peekNext()`
    let batesNumber ← (formatBates counter.style counter.next).mapError BatesError.message
    let pdf ← deps.renderPlaceholder (js "Simplified text rendering of \"" ++ entry.fileName ++
      js "\". Full extracted text accompanies this document in TEXT/.") id batesNumber
    pure (.image pdf 1)
  else .ok (.placeholder (js "no renderable representation (unsupported conversion)"))

/-- The `catch` block: a placeholder if rendering fails. -/
def Rendered.ofResult : Except JsString Rendered → Rendered
  | .ok rendered => rendered
  | .error message => .placeholder (js "rendering failed: " ++ message)

/-- What an item is rendered as. -/
def renderedItem (counter : BatesCounter) (entry : SortableProductionItem Id) : Rendered :=
  .ofResult (renderItem deps run counter entry)

/-- `pageBates` -/
def pageBates (after : BatesCounter) (bates : DocumentBatesRange) (pageCount : ℕ) :
    Except BatesError (List JsString) :=
  match after.numbering with
  | .perPage => (List.range pageCount).mapM fun page =>
      formatBates after.style (after.next - bates.numbersUsed + page)
  | .perDocument => .ok (List.replicate pageCount bates.begBates)

/-- A PDF with its stamps, and without them if stamping fails. -/
def stampPages (after : BatesCounter) (bates : DocumentBatesRange) (pageCount : ℕ) (pdf : Buffer) :
    Except JsString Buffer :=
  if run.hasStamps then do
    let pageBatesNumbers ← (pageBates after bates pageCount).mapError BatesError.message
    match deps.stamp pdf pageBatesNumbers with
    | .ok stamped => pure stamped
    | .error _ => pure pdf
  else .ok pdf

/-- The PDF of a document, under the path of the next image. -/
def imageUploads (after : BatesCounter) (bates : DocumentBatesRange) (pageCount imageIndex : ℕ) :
    Option Buffer → Except JsString (List (JsString × Buffer))
  | none => .ok []
  | some pdf => do
    let stamped ← stampPages deps run after bates pageCount pdf
    let path ← (imagePath bates.begBates .pdf imageIndex imagesPerVolume).mapError
      ProductionError.message
    pure [(path, stamped)]

/-! ## The run -/

/-- `ProducedDraft`, with the images. -/
structure RenderedDraft (Id : Type) extends ProducedDraft Id where
  imagePaths : List JsString
  placeholderReason : JsString
  /-- what is uploaded under the paths -/
  uploads : List (JsString × Buffer)

/-- An entry of the loop. -/
def renderEntry (counter : BatesCounter) (imageIndex sortIndex : ℕ)
    (entry : SortableProductionItem Id) : Except JsString (RenderedDraft Id × BatesCounter) := do
  let rendered := renderedItem deps run counter entry
  let pageCount := if rendered.outputKind = .placeholder then 1 else rendered.pageCount
  let (bates, after) ← (counter.nextDocument pageCount).mapError BatesError.message
  let pdfBytes ←
    if rendered.outputKind = .placeholder ∧ rendered.pdfBytes = none then
      some <$> deps.renderPlaceholder rendered.placeholderReason entry.evidenceId bates.begBates
    else pure rendered.pdfBytes
  let uploads ← imageUploads deps run after bates pageCount imageIndex pdfBytes
  pure ({ evidenceItemId := entry.evidenceId
          sortIndex
          begBates := bates.begBates
          endBates := bates.endBates
          begAttach := []
          endAttach := []
          pageCount
          familyId := entry.familyId
          imagePaths := uploads.map Prod.fst
          placeholderReason := rendered.placeholderReason
          uploads }, after)

/-- The loop over the sorted items. -/
def renderEntries : BatesCounter → ℕ → ℕ → List (SortableProductionItem Id) →
    Except JsString (List (RenderedDraft Id))
  | _, _, _, [] => .ok []
  | counter, imageIndex, sortIndex, entry :: rest => do
    let (draft, after) ← renderEntry deps run counter imageIndex sortIndex entry
    let drafts ← renderEntries after (imageIndex + draft.imagePaths.length) (sortIndex + 1) rest
    .ok (draft :: drafts)

/-- A draft with the range of its group. -/
def RenderedDraft.attach (groups : JsMap Id (List (ProducedDraft Id))) (draft : RenderedDraft Id) :
    RenderedDraft Id :=
  { draft with toProducedDraft := Production.attach groups draft.toProducedDraft }

/-- `optDocs` -/
def optDocs (produced : List (RenderedDraft Id)) : List OptDocument :=
  (produced.filter fun draft => draft.imagePaths.length > 0).map fun draft =>
    ⟨draft.imagePaths.map fun path => ⟨draft.begBates, path, none⟩⟩

/-- The OPT file, if there is one. -/
def optFile (produced : List (RenderedDraft Id)) : Except JsString (Option JsString) :=
  match run.parameters.output with
  | .loadFile _ _ _ =>
    if .opt ∈ run.loadFileFormats ∧ (optDocs produced).length > 0 then
      some <$> (buildOptFile (optDocs produced) (js "VOL001")).mapError ProductionError.message
    else .ok none
  | _ => .ok none

/-- What a run produces. -/
structure Rendering (Id : Type) where
  produced : List (RenderedDraft Id)
  opt : Option JsString

/-- `processProductionRun`, as far as images go. -/
def renderRun : Except JsString (Rendering Id) := do
  let bates := run.parameters.bates
  let counter ← (BatesCounter.new bates.style bates.numbering run.startNumber).mapError
    BatesError.message
  let drafts ← renderEntries deps run counter 0 0
    (entries run.tables run.selectionItemIds run.parameters)
  let groups := familyGroups (drafts.map RenderedDraft.toProducedDraft)
  let produced := drafts.map (RenderedDraft.attach groups)
  let opt ← optFile run produced
  .ok ⟨produced, opt⟩

end Item

/-! ## What is to match -/

/-- The lines of an OPT file say where the images are, and where documents begin and how long they
are. -/
structure LinesMatch {Id : Type} (lines : List OptLine) (produced : List (RenderedDraft Id)) :
    Prop where
  /-- a line names the volume its image is in -/
  volumes : ∀ line ∈ lines, volumeDirectory line.imagePath = some line.volumeLabel
  /-- an image has one line -/
  once : ∀ draft ∈ produced, ∀ path ∈ draft.imagePaths,
    lines.countP (fun line => line.imagePath = path) = 1
  /-- the breaks are the first images of the documents -/
  breaks : (lines.filter OptLine.isBreak).map (fun line => (line.batesNumber, line.imagePath)) =
    produced.filterMap fun draft => draft.imagePaths.head?.map fun path => (draft.begBates, path)
  counts : Counted lines

/-- **The image load file matches the images.** It can be read, and its lines match. -/
def OptMatches {Id : Type} (text : JsString) (produced : List (RenderedDraft Id)) : Prop :=
  ∃ lines, readOpt text = some lines ∧ LinesMatch lines produced

/-! ## What an item is rendered as -/

section Entry

variable {Id : Type} [LinearOrder Id]

/-- The pages of an item, which are the pages of a PDF or a single one. -/
def pagesOf (deps : ProductionDeps Id) (run : FrozenRun Id) (id : Id) : ℕ :=
  if run.hasFinalRedactions id then
    match deps.rasterizerAvailable, renderRedacted deps with
    | true, .ok (some pdf) => countPdfPagesApprox pdf
    | _, _ => 1
  else if run.parameters.output = .nativesOnly then 1
  else if run.mimeType id = js "application/pdf" ∧ run.hasBlob id then
    match deps.readBlob id with
    | .ok pdf => countPdfPagesApprox pdf
    | .error _ => 1
  else 1

theorem one_le_countPdfPagesApprox (pdf : Buffer) : 1 ≤ countPdfPagesApprox pdf := by
  rw [countPdfPagesApprox]
  split_ifs with h
  · exact h
  · exact Nat.le_refl 1

variable {deps : ProductionDeps Id} {run : FrozenRun Id}

theorem one_le_pagesOf (id : Id) : 1 ≤ pagesOf deps run id := by
  rw [pagesOf]
  split_ifs
  · split
    · exact one_le_countPdfPagesApprox _
    · exact Nat.le_refl 1
  · exact Nat.le_refl 1
  · split
    · exact one_le_countPdfPagesApprox _
    · exact Nat.le_refl 1
  · exact Nat.le_refl 1

/-- A PDF that is made becomes an image, unless making it fails. -/
theorem ofResult_image (x : Except JsString Buffer) (pageCount : ℕ) :
    (∃ reason, Rendered.ofResult (do pure (.image (← x) pageCount)) = .placeholder reason) ∨
      ∃ pdf, Rendered.ofResult (do pure (.image (← x) pageCount)) = .image pdf pageCount := by
  rcases x with message | pdf
  · exact .inl ⟨_, rfl⟩
  · exact .inr ⟨pdf, rfl⟩

variable (deps run) in
/-- **An item is rendered** as a placeholder, as an image, or, where only natives are produced, not
at all. Its pages are those of the item. -/
theorem renderedItem_cases (counter : BatesCounter) (entry : SortableProductionItem Id) :
    (∃ reason, renderedItem deps run counter entry = .placeholder reason ∧
      pagesOf deps run entry.evidenceId = 1) ∨
    (∃ pdf, renderedItem deps run counter entry = .image pdf (pagesOf deps run entry.evidenceId)) ∨
    (run.parameters.output = .nativesOnly ∧
      renderedItem deps run counter entry = ⟨none, 1, [], .native⟩ ∧
      pagesOf deps run entry.evidenceId = 1) := by
  rw [renderedItem, renderItem, pagesOf]
  by_cases hredacted : run.hasFinalRedactions entry.evidenceId
  · rw [if_pos hredacted, if_pos hredacted]
    rcases deps.rasterizerAvailable with _ | _
    · exact .inl ⟨_, rfl, rfl⟩
    · rcases renderRedacted deps with _ | _ | pdf
      · exact .inl ⟨_, rfl, rfl⟩
      · exact .inl ⟨_, rfl, rfl⟩
      · exact .inr (.inl ⟨pdf, rfl⟩)
  rw [if_neg hredacted, if_neg hredacted]
  by_cases hnatives : run.parameters.output = .nativesOnly
  · rw [if_pos hnatives, if_pos hnatives]
    exact .inr (.inr ⟨hnatives, rfl, rfl⟩)
  rw [if_neg hnatives, if_neg hnatives]
  by_cases hpdf : run.mimeType entry.evidenceId = js "application/pdf" ∧
      run.hasBlob entry.evidenceId
  · rw [if_pos hpdf, if_pos hpdf]
    rcases deps.readBlob entry.evidenceId with _ | pdf
    · exact .inl ⟨_, rfl, rfl⟩
    · exact .inr (.inl ⟨pdf, rfl⟩)
  rw [if_neg hpdf, if_neg hpdf]
  by_cases himage : (run.mimeType entry.evidenceId = js "image/png" ∨
      run.mimeType entry.evidenceId = js "image/jpeg") ∧ run.hasBlob entry.evidenceId
  · rw [if_pos himage]
    rcases deps.readBlob entry.evidenceId with _ | image
    · exact .inl ⟨_, rfl, rfl⟩
    · rcases ofResult_image (deps.assembleImagePdf image
          (if run.mimeType entry.evidenceId = js "image/png" then js "png" else js "jpeg")) 1
        with ⟨reason, h⟩ | ⟨pdf, h⟩
      · exact .inl ⟨reason, h, rfl⟩
      · exact .inr (.inl ⟨pdf, h⟩)
  rw [if_neg himage]
  by_cases htext : (run.bestText entry.evidenceId).isSome ∨
      entry.evidenceId ∈ run.tables.extractedTexts
  · rw [if_pos htext]
    rcases formatBates counter.style counter.next with _ | batesNumber
    · exact .inl ⟨_, rfl, rfl⟩
    · rcases ofResult_image (deps.renderPlaceholder _ entry.evidenceId batesNumber) 1
        with ⟨reason, h⟩ | ⟨pdf, h⟩
      · exact .inl ⟨reason, h, rfl⟩
      · exact .inr (.inl ⟨pdf, h⟩)
  · rw [if_neg htext]
    exact .inl ⟨_, rfl, rfl⟩

theorem mapError_eq_ok {ε ε' α : Type} {x : Except ε α} {f : ε → ε'} {a : α} :
    x.mapError f = .ok a ↔ x = .ok a := by
  rcases x with e | b
  · exact ⟨fun h => (nomatch h), fun h => (nomatch h)⟩
  · exact ⟨fun h => congrArg _ (Except.ok.inj h), fun h => congrArg _ (Except.ok.inj h)⟩

omit [LinearOrder Id] in
theorem imageUploads_ok {after : BatesCounter} {bates : DocumentBatesRange}
    {pageCount imageIndex : ℕ} {pdf : Buffer} {uploads : List (JsString × Buffer)}
    (h : imageUploads deps run after bates pageCount imageIndex (some pdf) = .ok uploads) :
    ∃ path, imagePath bates.begBates .pdf imageIndex imagesPerVolume = .ok path ∧
      uploads.map Prod.fst = [path] := by
  obtain ⟨stamped, -, h⟩ := bind_eq_ok.mp h
  obtain ⟨path, hpath, h⟩ := bind_eq_ok.mp h
  obtain rfl := Except.ok.inj h
  exact ⟨path, mapError_eq_ok.mp hpath, rfl⟩

/-- **An entry of the loop.** Its document is numbered by its pages, and there is one image of it,
which is the next of the run, unless only natives are produced. -/
theorem renderEntry_ok {counter after : BatesCounter} {imageIndex sortIndex : ℕ}
    {entry : SortableProductionItem Id} {draft : RenderedDraft Id}
    (h : renderEntry deps run counter imageIndex sortIndex entry = .ok (draft, after)) :
    ∃ bates, counter.nextDocument (pagesOf deps run entry.evidenceId) = .ok (bates, after) ∧
      draft.toProducedDraft =
        { evidenceItemId := entry.evidenceId
          sortIndex
          begBates := bates.begBates
          endBates := bates.endBates
          begAttach := []
          endAttach := []
          pageCount := pagesOf deps run entry.evidenceId
          familyId := entry.familyId } ∧
      (run.parameters.output = .nativesOnly ∧ draft.imagePaths = [] ∨
        ∃ path, imagePath draft.begBates .pdf imageIndex imagesPerVolume = .ok path ∧
          draft.imagePaths = [path]) := by
  rw [renderEntry] at h
  rcases renderedItem_cases deps run counter entry with
    ⟨reason, hrendered, hpages⟩ | ⟨pdf, hrendered⟩ | ⟨hnatives, hrendered, hpages⟩
  all_goals
    rw [hrendered] at h
    obtain ⟨⟨bates, behind⟩, hbates, h⟩ := bind_eq_ok.mp h
    obtain ⟨pdfBytes, hpdf, h⟩ := bind_eq_ok.mp h
    obtain ⟨uploads, huploads, h⟩ := bind_eq_ok.mp h
    obtain ⟨rfl, rfl⟩ := Prod.mk.inj (Except.ok.inj h)
    have hnext := mapError_eq_ok.mp hbates
  · -- the placeholder is rendered behind the `try` block
    rcases hplaceholder : deps.renderPlaceholder (Rendered.placeholder reason).placeholderReason
        entry.evidenceId bates.begBates with message | pdf
    · rw [hplaceholder] at hpdf
      cases hpdf
    rw [hplaceholder] at hpdf
    obtain rfl := Except.ok.inj hpdf
    have hone : (if (Rendered.placeholder reason).outputKind = .placeholder then 1 else
        (Rendered.placeholder reason).pageCount) = pagesOf deps run entry.evidenceId := hpages.symm
    refine ⟨bates, hone ▸ hnext, ?_, .inr (imageUploads_ok huploads)⟩
    rw [hone]
  · obtain rfl := Except.ok.inj hpdf
    exact ⟨bates, hnext, rfl, .inr (imageUploads_ok huploads)⟩
  · obtain rfl := Except.ok.inj hpdf
    obtain rfl := Except.ok.inj huploads
    have hone : (1 : ℕ) = pagesOf deps run entry.evidenceId := hpages.symm
    exact ⟨bates, hone ▸ hnext, by rw [← hone]; rfl, .inl ⟨hnatives, rfl⟩⟩

end Entry

/-! ## Where the images of a run are -/

section Loop

variable {Id : Type}

/-- Every document has one image, which is put where the next one of the run goes. -/
def Placed : ℕ → List (RenderedDraft Id) → Prop
  | _, [] => True
  | imageIndex, draft :: rest =>
    (∃ path, imagePath draft.begBates .pdf imageIndex imagesPerVolume = .ok path ∧
      draft.imagePaths = [path]) ∧ Placed (imageIndex + 1) rest

/-- An image is named by the number of its document. -/
theorem Placed.exists_index {imageIndex : ℕ} {drafts : List (RenderedDraft Id)}
    (h : Placed imageIndex drafts) {draft : RenderedDraft Id} (hdraft : draft ∈ drafts) :
    ∃ index path, imagePath draft.begBates .pdf index imagesPerVolume = .ok path ∧
      draft.imagePaths = [path] := by
  induction drafts generalizing imageIndex with
  | nil => cases hdraft
  | cons first rest ih =>
    rcases List.mem_cons.mp hdraft with rfl | hdraft
    · exact ⟨imageIndex, h.1⟩
    · exact ih h.2 hdraft

/-- Documents of different numbers have different images. -/
theorem Placed.nodup {imageIndex : ℕ} {drafts : List (RenderedDraft Id)}
    (h : Placed imageIndex drafts) (hbates : drafts.Pairwise fun d e => d.begBates ≠ e.begBates) :
    (drafts.flatMap RenderedDraft.imagePaths).Nodup := by
  refine List.nodup_flatMap.mpr ⟨fun d hd => ?_, ?_⟩
  · obtain ⟨_, path, -, hpaths⟩ := h.exists_index hd
    rw [hpaths]
    exact List.nodup_singleton path
  · refine hbates.imp_of_mem fun {d e} hd he hne path hpathd hpathe => hne ?_
    obtain ⟨_, _, hd, hpathsd⟩ := h.exists_index hd
    obtain ⟨_, _, he, hpathse⟩ := h.exists_index he
    rw [hpathsd] at hpathd
    rw [hpathse] at hpathe
    obtain rfl := List.mem_singleton.mp hpathd
    obtain rfl := List.mem_singleton.mp hpathe
    exact batesNumber_eq_of_imagePath hd he

theorem volumeLabel_eq_first {imageIndex : ℕ} :
    volumeLabel imageIndex imagesPerVolume = .ok (js "VOL001") ↔ imageIndex < imagesPerVolume := by
  have hfirst : js "VOL001" = js "VOL" ++ paddedDecimal 3 1 := rfl
  have hpos : ¬ imagesPerVolume < 1 := by decide
  rw [volumeLabel, if_neg hpos, hfirst, Except.ok.injEq, List.append_right_inj,
    (paddedDecimal_injective 3).eq_iff, Nat.add_eq_right, Nat.div_eq_zero_iff]
  exact or_iff_right (by decide)

/-- **The first volume.** The images of some documents are all in the first volume exactly if its
images last for the documents. -/
theorem Placed.volumes {imageIndex : ℕ} {drafts : List (RenderedDraft Id)}
    (h : Placed imageIndex drafts) :
    (∀ draft ∈ drafts, ∀ path ∈ draft.imagePaths, volumeDirectory path = some (js "VOL001")) ↔
      drafts = [] ∨ imageIndex + drafts.length ≤ imagesPerVolume := by
  induction drafts generalizing imageIndex with
  | nil => exact ⟨fun _ => .inl rfl, fun _ _ hdraft => (nomatch hdraft)⟩
  | cons draft rest ih =>
    obtain ⟨⟨path, hpath, hpaths⟩, hrest⟩ := h
    obtain ⟨volume, hvolume, hdirectory⟩ := volumeDirectory_imagePath hpath
    have hfirst : (∀ p ∈ draft.imagePaths, volumeDirectory p = some (js "VOL001")) ↔
        imageIndex < imagesPerVolume := by
      rw [hpaths, List.forall_mem_singleton, hdirectory, ← volumeLabel_eq_first, hvolume,
        Except.ok.injEq, Option.some.injEq]
    rw [List.forall_mem_cons, hfirst, ih hrest, List.length_cons,
      or_iff_right (List.cons_ne_nil _ _)]
    rcases rest with _ | ⟨second, rest⟩
    · rw [or_iff_left_of_imp (fun _ => rfl)]
      exact and_iff_left rfl
    · rw [or_iff_right (List.cons_ne_nil _ _), List.length_cons]
      omega

theorem optDocs_cons_of_nil {draft : RenderedDraft Id} {rest : List (RenderedDraft Id)}
    (h : draft.imagePaths = []) : optDocs (draft :: rest) = optDocs rest := by
  simp [optDocs, h]

theorem optDocs_cons_of_ne_nil {draft : RenderedDraft Id} {rest : List (RenderedDraft Id)}
    (h : draft.imagePaths ≠ []) : optDocs (draft :: rest) =
      ⟨draft.imagePaths.map fun path => ⟨draft.begBates, path, none⟩⟩ :: optDocs rest := by
  simp [optDocs, List.length_pos_iff.mpr h]

/-- The line of an image. -/
def imageLine (draft : RenderedDraft Id) (path : JsString) : OptLine :=
  optLineOf (js "VOL001") 1 ⟨draft.begBates, path, none⟩ 0

/-- The lines of the images of some documents. -/
def imageLines (drafts : List (RenderedDraft Id)) : List OptLine :=
  drafts.flatMap fun draft => draft.imagePaths.map (imageLine draft)

theorem Placed.lines {imageIndex : ℕ} {drafts : List (RenderedDraft Id)}
    (h : Placed imageIndex drafts) :
    (optDocs drafts).flatMap (OptDocument.lines (js "VOL001")) = imageLines drafts := by
  induction drafts generalizing imageIndex with
  | nil => rfl
  | cons draft rest ih =>
    obtain ⟨⟨path, -, hpaths⟩, hrest⟩ := h
    have hmany : draft.imagePaths ≠ [] := hpaths ▸ List.cons_ne_nil _ _
    rw [optDocs_cons_of_ne_nil hmany, List.flatMap_cons, ih hrest, imageLines, imageLines,
      List.flatMap_cons, hpaths]
    rfl

theorem map_imagePath_imageLines (drafts : List (RenderedDraft Id)) :
    (imageLines drafts).map OptLine.imagePath = drafts.flatMap RenderedDraft.imagePaths := by
  rw [imageLines, List.map_flatMap]
  refine List.flatMap_congr fun draft _ => ?_
  rw [List.map_map]
  exact List.map_id _

theorem mem_imageLines {drafts : List (RenderedDraft Id)} {line : OptLine} :
    line ∈ imageLines drafts ↔
      ∃ draft ∈ drafts, ∃ path ∈ draft.imagePaths, imageLine draft path = line := by
  rw [imageLines, List.mem_flatMap]
  exact exists_congr fun draft => and_congr_right fun _ => List.mem_map

theorem Placed.length_optDocs_pos {imageIndex : ℕ} {drafts : List (RenderedDraft Id)}
    (h : Placed imageIndex drafts) (hne : drafts ≠ []) : (optDocs drafts).length > 0 := by
  obtain ⟨draft, rest, rfl⟩ := List.exists_cons_of_ne_nil hne
  obtain ⟨⟨path, -, hpaths⟩, -⟩ := h
  rw [optDocs_cons_of_ne_nil (hpaths ▸ List.cons_ne_nil _ _)]
  exact Nat.succ_pos _

/-- The first pages are the first images. -/
theorem filterMap_optDocs {drafts : List (RenderedDraft Id)} :
    ((optDocs drafts).filterMap fun document => document.pages.head?.map fun page =>
        optLineOf (js "VOL001") document.pages.length page 0).map
          (fun line => (line.batesNumber, line.imagePath)) =
      drafts.filterMap fun draft =>
        draft.imagePaths.head?.map fun path => (draft.begBates, path) := by
  induction drafts with
  | nil => rfl
  | cons draft rest ih =>
    rcases hpaths : draft.imagePaths with _ | ⟨path, paths⟩
    · rw [optDocs_cons_of_nil hpaths, List.filterMap_cons, hpaths]
      exact ih
    · have hmany : draft.imagePaths ≠ [] := hpaths ▸ List.cons_ne_nil _ _
      rw [optDocs_cons_of_ne_nil hmany, List.filterMap_cons, List.filterMap_cons, hpaths]
      exact congrArg _ ih

end Loop

/-! ## The run -/

section Run

variable {Id : Type} [LinearOrder Id] {deps : ProductionDeps Id} {run : FrozenRun Id}

/-- **The loop.** Its documents are those of `produce`, and where images are produced every one has
an image. -/
theorem renderEntries_ok {counter : BatesCounter} {imageIndex sortIndex : ℕ}
    {entries : List (SortableProductionItem Id)} {drafts : List (RenderedDraft Id)}
    (h : renderEntries deps run counter imageIndex sortIndex entries = .ok drafts) :
    produce (pagesOf deps run) counter sortIndex entries =
        .ok (drafts.map RenderedDraft.toProducedDraft) ∧
      (run.parameters.output ≠ .nativesOnly → Placed imageIndex drafts) := by
  induction entries generalizing counter imageIndex sortIndex drafts with
  | nil =>
    obtain rfl := Except.ok.inj h
    exact ⟨rfl, fun _ => trivial⟩
  | cons entry rest ih =>
    obtain ⟨⟨draft, after⟩, hentry, h⟩ := bind_eq_ok.mp h
    obtain ⟨later, hlater, h⟩ := bind_eq_ok.mp h
    obtain rfl := Except.ok.inj h
    obtain ⟨bates, hbates, hdraft, himages⟩ := renderEntry_ok hentry
    obtain ⟨hproduce, hplaced⟩ := ih hlater
    refine ⟨?_, fun hmode => ?_⟩
    · rw [produce, hbates]
      refine bind_eq_ok.mpr ⟨(bates, after), rfl, bind_eq_ok.mpr ⟨_, hproduce, ?_⟩⟩
      rw [List.map_cons, hdraft]
    · obtain ⟨path, hpath, hpaths⟩ := himages.resolve_left fun hnatives => hmode hnatives.1
      rw [hpaths] at hplaced
      exact ⟨⟨path, hpath, hpaths⟩, hplaced hmode⟩

/-- Ranges are no matter of where images are. -/
theorem Placed.attach {imageIndex : ℕ} {drafts : List (RenderedDraft Id)}
    (groups : JsMap Id (List (ProducedDraft Id))) (h : Placed imageIndex drafts) :
    Placed imageIndex (drafts.map (RenderedDraft.attach groups)) := by
  induction drafts generalizing imageIndex with
  | nil => trivial
  | cons draft rest ih =>
    obtain ⟨⟨path, hpath, hpaths⟩, hrest⟩ := h
    refine ⟨⟨path, ?_, hpaths⟩, ih hrest⟩
    rw [RenderedDraft.attach, attach_begBates]
    exact hpath

/-- **Refinement.** With the pages of its items, the documents of a run are those of
`processProductionRun`. -/
theorem processProductionRun_of_renderRun {files : Rendering Id}
    (h : renderRun deps run = .ok files) :
    processProductionRun run.tables run.selectionItemIds run.parameters run.startNumber
      (pagesOf deps run) = .ok (files.produced.map RenderedDraft.toProducedDraft) := by
  obtain ⟨counter, hcounter, h⟩ := bind_eq_ok.mp h
  obtain ⟨drafts, hdrafts, h⟩ := bind_eq_ok.mp h
  obtain ⟨opt, -, h⟩ := bind_eq_ok.mp h
  obtain rfl := Except.ok.inj h
  refine bind_eq_ok.mpr ⟨counter, mapError_eq_ok.mp hcounter, ?_⟩
  refine bind_eq_ok.mpr ⟨_, (renderEntries_ok hdrafts).1, ?_⟩
  rw [List.map_map, List.map_map]
  rfl

/-- Where images are produced, every document of a run has one, and the documents have different
numbers. -/
theorem placed_of_renderRun {files : Rendering Id} (h : renderRun deps run = .ok files)
    (hmode : run.parameters.output ≠ .nativesOnly) :
    Placed 0 files.produced ∧ (files.produced.Pairwise fun d e => d.begBates ≠ e.begBates) ∧
      files.produced.length = (itemRows run.tables run.selectionItemIds).length := by
  obtain ⟨counter, hcounter, h⟩ := bind_eq_ok.mp h
  obtain ⟨drafts, hdrafts, h⟩ := bind_eq_ok.mp h
  obtain ⟨opt, -, h⟩ := bind_eq_ok.mp h
  obtain rfl := Except.ok.inj h
  obtain rfl := BatesCounter.new_ok (mapError_eq_ok.mp hcounter)
  obtain ⟨hproduce, hplaced⟩ := renderEntries_ok hdrafts
  have hdigits : 0 < run.parameters.bates.style.digits :=
    Nat.lt_of_lt_of_le (by decide) run.parameters.bates.four_le_digits
  obtain ⟨hids, hbefore, -⟩ := produce_ok (by exact hdigits) hproduce
  refine ⟨(hplaced hmode).attach _, ?_, ?_⟩
  · rw [List.pairwise_map] at hbefore ⊢
    refine hbefore.imp fun {d e} hde => ?_
    rw [RenderedDraft.attach, RenderedDraft.attach, attach_begBates, attach_begBates]
    exact hde.2.1
  · have hlength := congrArg List.length hids
    rw [List.length_map, List.length_map, List.length_map] at hlength
    rw [List.length_map, hlength, entries_perm.length_eq, List.length_map]

omit [LinearOrder Id] in
/-- An OPT file is written only where images are produced. -/
theorem optFile_eq_some {produced : List (RenderedDraft Id)} {text : JsString}
    (h : optFile run produced = .ok (some text)) : run.parameters.output ≠ .nativesOnly ∧
      buildOptFile (optDocs produced) (js "VOL001") = .ok text := by
  rw [optFile] at h
  split at h
  · rename_i hmode
    by_cases hopt : .opt ∈ run.loadFileFormats ∧ (optDocs produced).length > 0
    · rw [if_pos hopt] at h
      rcases hbuild : buildOptFile (optDocs produced) (js "VOL001") with e | built
      · rw [hbuild] at h
        cases h
      · rw [hbuild] at h
        obtain rfl := Option.some.inj (Except.ok.inj h)
        refine ⟨fun hnatives => ?_, rfl⟩
        rw [hnatives] at hmode
        cases hmode
    · rw [if_neg hopt] at h
      cases h
  · cases h

/-- The file of a run is that of its documents. -/
theorem optFile_of_renderRun {files : Rendering Id} (h : renderRun deps run = .ok files) :
    optFile run files.produced = .ok files.opt := by
  obtain ⟨_, -, h⟩ := bind_eq_ok.mp h
  obtain ⟨_, -, h⟩ := bind_eq_ok.mp h
  obtain ⟨opt, hopt, h⟩ := bind_eq_ok.mp h
  obtain rfl := Except.ok.inj h
  exact hopt

/-- What is read are the lines of the images. -/
theorem readOpt_of_renderRun {files : Rendering Id} {text : JsString}
    (h : renderRun deps run = .ok files) (hopt : files.opt = some text) :
    run.parameters.output ≠ .nativesOnly ∧ readOpt text = some (imageLines files.produced) := by
  obtain ⟨hmode, hbuild⟩ :=
    optFile_eq_some ((optFile_of_renderRun h).trans (congrArg Except.ok hopt))
  rw [← (placed_of_renderRun h hmode).1.lines]
  exact ⟨hmode, (readOpt_buildOptFile hbuild).2⟩

/-- The lines name the volumes of the images exactly if no more items are produced than one volume
has images. -/
theorem volumes_iff {files : Rendering Id} (h : renderRun deps run = .ok files)
    (hmode : run.parameters.output ≠ .nativesOnly) :
    (∀ line ∈ imageLines files.produced,
        volumeDirectory line.imagePath = some line.volumeLabel) ↔
      (itemRows run.tables run.selectionItemIds).length ≤ imagesPerVolume := by
  obtain ⟨hplaced, -, hlength⟩ := placed_of_renderRun h hmode
  have hshort : files.produced = [] ∨ 0 + files.produced.length ≤ imagesPerVolume ↔
      (itemRows run.tables run.selectionItemIds).length ≤ imagesPerVolume := by
    rw [Nat.zero_add, hlength]
    refine or_iff_right_of_imp fun hnil => ?_
    rw [← hlength, hnil]
    exact Nat.zero_le _
  rw [← hshort, ← hplaced.volumes]
  refine ⟨fun hlines draft hdraft path hpath => ?_, fun hvolumes line hline => ?_⟩
  · exact hlines (imageLine draft path) (mem_imageLines.mpr ⟨draft, hdraft, path, hpath, rfl⟩)
  · obtain ⟨draft, hdraft, path, hpath, rfl⟩ := mem_imageLines.mp hline
    exact hvolumes draft hdraft path hpath

/-- **OPT files.** In whatever run writes an OPT file, the file matches the images exactly if no
more items are produced than one volume has images. -/
theorem optMatches_iff (deps : ProductionDeps Id) (run : FrozenRun Id) (files : Rendering Id)
    (text : JsString) (h : renderRun deps run = .ok files) (hopt : files.opt = some text) :
    OptMatches text files.produced ↔
      (itemRows run.tables run.selectionItemIds).length ≤ imagesPerVolume := by
  obtain ⟨hmode, hread⟩ := readOpt_of_renderRun h hopt
  obtain ⟨hplaced, hbates, -⟩ := placed_of_renderRun h hmode
  have hbuild := (optFile_eq_some ((optFile_of_renderRun h).trans (congrArg Except.ok hopt))).2
  have hpages := (readOpt_buildOptFile hbuild).1
  rw [← volumes_iff h hmode]
  refine ⟨?_, fun hvolumes => ⟨_, hread, hvolumes, ?_, ?_, ?_⟩⟩
  · rintro ⟨lines, hlines, hmatch⟩
    obtain rfl := Option.some.inj (hread.symm.trans hlines)
    exact hmatch.volumes
  · intro draft hdraft path hpath
    have hmem : path ∈ files.produced.flatMap RenderedDraft.imagePaths :=
      List.mem_flatMap.mpr ⟨draft, hdraft, hpath⟩
    rw [← List.count_eq_one_of_mem (hplaced.nodup hbates) hmem, ← map_imagePath_imageLines,
      List.count, List.countP_map]
    exact List.countP_congr fun line _ => by simp
  · rw [← hplaced.lines, filter_isBreak hpages, filterMap_optDocs]
  · rw [← hplaced.lines]
    exact counted_lines hpages

/-! ## Runs that write the file -/

/-- A computation returns if its first part does, and the rest then does. -/
theorem exists_bind_eq_ok {ε α β : Type} {x : Except ε α} {f : α → Except ε β} {a : α}
    (hx : x = .ok a) (hf : ∃ b, f a = .ok b) : ∃ b, x >>= f = .ok b := by
  obtain ⟨b, hb⟩ := hf
  exact ⟨b, bind_eq_ok.mpr ⟨a, hx, hb⟩⟩

theorem formatBates_of_fits {style : BatesStyle} {n : ℕ} (hdigits : 0 < style.digits)
    (h : style.Fits n) : formatBates style n = .ok (style.label n) := by
  have hlength := (length_decimal_le_iff hdigits).mpr h.2
  rw [formatBates, if_neg (Nat.not_lt.mpr h.1), if_neg (Nat.not_lt.mpr hlength)]

/-- Numbers that fit are given to a document. -/
theorem nextDocument_of_fits {counter : BatesCounter} {pageCount : ℕ}
    (hdigits : 0 < counter.style.digits) (hpages : 1 ≤ pageCount)
    (h : ∀ n, counter.next ≤ n → n < counter.next + counter.numbering.numbersUsed pageCount →
      counter.style.Fits n) :
    ∃ next, counter.nextDocument pageCount = .ok next := by
  have hused : 1 ≤ counter.numbering.numbersUsed pageCount := by
    cases counter.numbering with
    | perPage => exact hpages
    | perDocument => exact Nat.le_refl 1
  have hend := formatBates_of_fits hdigits
    (h (counter.next + counter.numbering.numbersUsed pageCount - 1) (by omega) (by omega))
  have hbeg := formatBates_of_fits hdigits (h counter.next (Nat.le_refl _) (by omega))
  rw [BatesCounter.nextDocument, if_neg (Nat.not_lt.mpr hpages)]
  exact exists_bind_eq_ok hend (exists_bind_eq_ok hbeg ⟨_, rfl⟩)

omit [LinearOrder Id] in
variable (deps run) in
/-- A document that was given numbers can be stamped with them, and has a path. -/
theorem exists_imageUploads {counter after : BatesCounter} {bates : DocumentBatesRange}
    {pageCount : ℕ} (hdigits : 0 < counter.style.digits)
    (h : counter.nextDocument pageCount = .ok (bates, after)) (imageIndex : ℕ)
    (pdf : Option Buffer) :
    ∃ uploads, imageUploads deps run after bates pageCount imageIndex pdf = .ok uploads := by
  obtain ⟨rfl, hused, -, -, -, hfits⟩ := BatesCounter.nextDocument_ok hdigits h
  rcases pdf with _ | pdf
  · exact ⟨[], rfl⟩
  have hnumbers : ∃ numbers,
      pageBates { counter with next := counter.next + bates.numbersUsed } bates pageCount =
        .ok numbers := by
    rw [pageBates]
    rcases hnumbering : counter.numbering with _ | _
    · refine ⟨_, Traversal.mapM_eq_ok_map fun page hpage => formatBates_of_fits hdigits ?_⟩
      rw [hnumbering] at hused
      have hlt : page < bates.numbersUsed := hused ▸ List.mem_range.mp hpage
      rw [Nat.add_sub_cancel]
      exact hfits _ (Nat.le_add_right _ _) (Nat.add_lt_add_left hlt _)
    · exact ⟨_, rfl⟩
  have hstamp : ∃ stamped, stampPages deps run
      { counter with next := counter.next + bates.numbersUsed } bates pageCount pdf =
        .ok stamped := by
    obtain ⟨numbers, hnumbers⟩ := hnumbers
    rw [stampPages]
    split_ifs
    · rcases hresult : deps.stamp pdf numbers with e | stamped
      all_goals
        refine exists_bind_eq_ok (mapError_eq_ok.mpr hnumbers) ?_
        rw [hresult]
        exact ⟨_, rfl⟩
    · exact ⟨pdf, rfl⟩
  obtain ⟨stamped, hstamp⟩ := hstamp
  exact exists_bind_eq_ok hstamp ⟨_, rfl⟩

/-- An entry is rendered if placeholders can be and the numbers of its pages fit. -/
theorem exists_renderEntry
    (hplaceholder : ∀ reason id n, ∃ pdf, deps.renderPlaceholder reason id n = .ok pdf)
    {counter : BatesCounter} (hdigits : 0 < counter.style.digits)
    {entry : SortableProductionItem Id} (hfits : ∀ n, counter.next ≤ n →
      n < counter.next + counter.numbering.numbersUsed (pagesOf deps run entry.evidenceId) →
        counter.style.Fits n) (imageIndex sortIndex : ℕ) :
    ∃ next, renderEntry deps run counter imageIndex sortIndex entry = .ok next := by
  obtain ⟨⟨bates, after⟩, hbates⟩ := nextDocument_of_fits hdigits (one_le_pagesOf _) hfits
  rw [renderEntry]
  rcases renderedItem_cases deps run counter entry with
    ⟨reason, hrendered, hpages⟩ | ⟨pdf, hrendered⟩ | ⟨-, hrendered, hpages⟩
  · rw [hpages] at hbates
    obtain ⟨pdf, hpdf⟩ := hplaceholder reason entry.evidenceId bates.begBates
    obtain ⟨uploads, huploads⟩ :=
      exists_imageUploads deps run hdigits hbates imageIndex (some pdf)
    rw [hrendered]
    refine exists_bind_eq_ok (mapError_eq_ok.mpr hbates) ?_
    refine exists_bind_eq_ok (a := some pdf) (congrArg (fun x => some <$> x) hpdf) ?_
    exact exists_bind_eq_ok huploads ⟨_, rfl⟩
  · obtain ⟨uploads, huploads⟩ :=
      exists_imageUploads deps run hdigits hbates imageIndex (some pdf)
    rw [hrendered]
    refine exists_bind_eq_ok (mapError_eq_ok.mpr hbates) ?_
    exact exists_bind_eq_ok (a := some pdf) rfl (exists_bind_eq_ok huploads ⟨_, rfl⟩)
  · rw [hpages] at hbates
    rw [hrendered]
    refine exists_bind_eq_ok (mapError_eq_ok.mpr hbates) ?_
    exact exists_bind_eq_ok (a := none) rfl (exists_bind_eq_ok (a := []) rfl ⟨_, rfl⟩)

/-- **Every run of documents ends** if placeholders can be rendered and the numbers fit. -/
theorem exists_renderEntries
    (hplaceholder : ∀ reason id n, ∃ pdf, deps.renderPlaceholder reason id n = .ok pdf)
    {counter : BatesCounter} (hdigits : 0 < counter.style.digits)
    {entries : List (SortableProductionItem Id)} (imageIndex sortIndex : ℕ)
    (hfits : ∀ n, counter.next ≤ n → n < counter.next + (entries.map fun e =>
      counter.numbering.numbersUsed (pagesOf deps run e.evidenceId)).sum → counter.style.Fits n) :
    ∃ drafts, renderEntries deps run counter imageIndex sortIndex entries = .ok drafts := by
  induction entries generalizing counter imageIndex sortIndex with
  | nil => exact ⟨[], rfl⟩
  | cons entry rest ih =>
    rw [List.map_cons, List.sum_cons] at hfits
    have hfirst : ∀ n, counter.next ≤ n →
        n < counter.next + counter.numbering.numbersUsed (pagesOf deps run entry.evidenceId) →
          counter.style.Fits n := fun n hn hlt => hfits n hn (by omega)
    obtain ⟨⟨draft, after⟩, hentry⟩ :=
      exists_renderEntry hplaceholder hdigits hfirst imageIndex sortIndex
    obtain ⟨bates, hbates, -, -⟩ := renderEntry_ok hentry
    obtain ⟨rfl, hused, -⟩ := BatesCounter.nextDocument_ok hdigits hbates
    have hlater : ∀ n, counter.next + bates.numbersUsed ≤ n →
        n < counter.next + bates.numbersUsed + (rest.map fun e =>
          counter.numbering.numbersUsed (pagesOf deps run e.evidenceId)).sum →
            counter.style.Fits n := fun n hn hlt => hfits n (by omega) (by omega)
    obtain ⟨drafts, hdrafts⟩ := @ih ⟨counter.style, counter.numbering,
      counter.next + bates.numbersUsed⟩ hdigits (imageIndex + draft.imagePaths.length)
      (sortIndex + 1) hlater
    exact exists_bind_eq_ok hentry (exists_bind_eq_ok hdrafts ⟨_, rfl⟩)

/-- Numbers of an admitted configuration break no field. -/
theorem breaksField_label (config : BatesConfig) (n : ℕ) :
    breaksField (config.style.label n) = false := by
  have hunit : ∀ c ∈ config.style.label n, isLabelUnit c = true := by
    intro c hc
    rcases List.mem_append.mp hc with hc | hc
    · rcases List.mem_append.mp hc with hc | hc
      · exact List.all_eq_true.mp config.batesPrefix_units c hc
      · have hdigit := isDigit_of_mem_paddedDecimal hc
        rw [isLabelUnit, decide_eq_true_eq]
        exact .inr (.inr (.inl hdigit))
    · exact List.all_eq_true.mp config.suffix_units c hc
  refine breaksField_eq_false.mpr ⟨fun h => ?_, fun h => ?_, fun h => ?_⟩
  all_goals exact absurd (hunit _ h) (by decide)

theorem breaksField_imagePath {batesNumber path : JsString} {imageIndex : ℕ}
    (hbates : breaksField batesNumber = false)
    (h : imagePath batesNumber .pdf imageIndex imagesPerVolume = .ok path) :
    breaksField path = false := by
  obtain ⟨volume, hvolume, rfl⟩ := imagePath_eq_ok h
  have hfield : breaksField volume = false := by
    rw [volumeLabel] at hvolume
    split_ifs at hvolume
    obtain rfl := Except.ok.inj hvolume
    refine breaksField_eq_false.mpr ⟨fun h => ?_, fun h => ?_, fun h => ?_⟩
    all_goals
      rcases List.mem_append.mp h with hvol | hdigit
      · exact absurd hvol (by decide)
      · exact absurd (isDigit_of_mem_paddedDecimal hdigit) (by decide)
  obtain ⟨hb1, hb2, hb3⟩ := breaksField_eq_false.mp hbates
  obtain ⟨hv1, hv2, hv3⟩ := breaksField_eq_false.mp hfield
  refine breaksField_eq_false.mpr ⟨?_, ?_, ?_⟩
  all_goals
    simp only [List.mem_append, not_or]
    refine ⟨by decide, by decide, by assumption, by decide, by assumption, by decide⟩

omit [LinearOrder Id] in
/-- The lines of documents with such numbers can be written. -/
theorem Placed.exists_buildOptFile {imageIndex : ℕ} {drafts : List (RenderedDraft Id)}
    (h : Placed imageIndex drafts) (hbates : ∀ d ∈ drafts, breaksField d.begBates = false) :
    ∃ text, buildOptFile (optDocs drafts) (js "VOL001") = .ok text := by
  have hwrite : ∃ written,
      (optDocs drafts).mapM (OptDocument.write (js "VOL001")) = .ok written := by
    induction drafts generalizing imageIndex with
    | nil => exact ⟨[], rfl⟩
    | cons draft rest ih =>
      obtain ⟨⟨path, hpath, hpaths⟩, hrest⟩ := h
      obtain ⟨hdraft, hlater⟩ := List.forall_mem_cons.mp hbates
      obtain ⟨written, hwritten⟩ := ih hrest hlater
      have hline : ∀ field ∈ (imageLine draft path).fields, breaksField field = false := by
        have hpath := breaksField_imagePath hdraft hpath
        have hfields : (imageLine draft path).fields =
            [draft.begBates, js "VOL001", path, js "Y", [], [], decimal 1] := rfl
        intro field hfield
        simp only [hfields, List.mem_cons, List.not_mem_nil, or_false] at hfield
        rcases hfield with rfl | rfl | rfl | rfl | rfl | rfl | rfl
        · exact hdraft
        · decide
        · exact hpath
        all_goals decide
      rw [optDocs_cons_of_ne_nil (hpaths ▸ List.cons_ne_nil _ _), List.mapM_cons, hpaths]
      have hdocument := OptDocument.write_eq_ok.mpr
        ⟨List.cons_ne_nil (⟨draft.begBates, path, none⟩ : OptPage) [],
          .cons (OptLine.write_eq_ok.mpr ⟨hline, rfl⟩) .nil⟩
      exact exists_bind_eq_ok hdocument (exists_bind_eq_ok hwritten ⟨_, rfl⟩)
  obtain ⟨written, hwritten⟩ := hwrite
  exact exists_bind_eq_ok hwritten ⟨_, rfl⟩

/-- **Runs that write an OPT file.** A run with load files writes one if it has items, placeholders
can be rendered and the numbers fit. -/
theorem exists_opt
    (hplaceholder : ∀ reason id n, ∃ pdf, deps.renderPlaceholder reason id n = .ok pdf)
    {imageFormat : ImageFormat} {includeNatives includeText : Bool}
    (hmode : run.parameters.output = .loadFile imageFormat includeNatives includeText)
    (hformat : .opt ∈ run.loadFileFormats)
    (hitems : itemRows run.tables run.selectionItemIds ≠ [])
    (hstart : run.parameters.bates.style.Fits run.startNumber)
    (hfits : ∀ n, run.startNumber ≤ n → n < run.startNumber +
      ((entries run.tables run.selectionItemIds run.parameters).map fun e =>
        run.parameters.bates.numbering.numbersUsed (pagesOf deps run e.evidenceId)).sum →
          run.parameters.bates.style.Fits n) :
    ∃ files text, renderRun deps run = .ok files ∧ files.opt = some text := by
  have hdigits : 0 < run.parameters.bates.style.digits :=
    Nat.lt_of_lt_of_le (by decide) run.parameters.bates.four_le_digits
  have hnatives : run.parameters.output ≠ .nativesOnly := by
    rw [hmode]
    exact fun h => (nomatch h)
  obtain ⟨drafts, hdrafts⟩ := @exists_renderEntries _ _ deps run hplaceholder
    ⟨_, run.parameters.bates.numbering, run.startNumber⟩ hdigits _ 0 0 hfits
  obtain ⟨hproduce, hplaced⟩ := renderEntries_ok hdrafts
  obtain ⟨hids, -, hnumbered⟩ := produce_ok (by exact hdigits) hproduce
  obtain ⟨produced, hproduced⟩ : ∃ produced, produced = drafts.map (RenderedDraft.attach
      (familyGroups (drafts.map RenderedDraft.toProducedDraft))) := ⟨_, rfl⟩
  have hplaced : Placed 0 produced := hproduced ▸ (hplaced hnatives).attach _
  have hbates : ∀ d ∈ produced, breaksField d.begBates = false := by
    rw [hproduced]
    intro d hd
    obtain ⟨e, he, rfl⟩ := List.mem_map.mp hd
    obtain ⟨n, -, hn⟩ := (hnumbered _ (List.mem_map_of_mem he)).begBates
    rw [RenderedDraft.attach, attach_begBates, hn]
    exact breaksField_label _ n
  obtain ⟨text, htext⟩ := hplaced.exists_buildOptFile hbates
  have hne : produced ≠ [] := by
    have hlength := congrArg List.length hids
    rw [List.length_map, List.length_map, List.length_map, entries_perm.length_eq,
      List.length_map] at hlength
    rw [hproduced]
    exact mt List.map_eq_nil_iff.mp
      (List.ne_nil_of_length_pos (hlength ▸ List.length_pos_of_ne_nil hitems))
  have hfile : optFile run produced = .ok (some text) := by
    rw [optFile, hmode]
    dsimp only
    rw [if_pos ⟨hformat, hplaced.length_optDocs_pos hne⟩, htext]
    rfl
  have hcounter : BatesCounter.new run.parameters.bates.style run.parameters.bates.numbering
      run.startNumber =
        .ok ⟨run.parameters.bates.style, run.parameters.bates.numbering, run.startNumber⟩ := by
    rw [BatesCounter.new, if_neg (Nat.not_lt.mpr hstart.1), formatBates_of_fits hdigits hstart]
    rfl
  refine ⟨⟨produced, some text⟩, text, ?_, rfl⟩
  refine bind_eq_ok.mpr ⟨_, mapError_eq_ok.mpr hcounter, bind_eq_ok.mpr ⟨_, hdrafts, ?_⟩⟩
  subst hproduced
  exact bind_eq_ok.mpr ⟨_, hfile, rfl⟩

end Run

/-! ## A run that goes beyond the first volume -/

/-- Everything can be rendered, but nothing can be rasterized. -/
def exampleDeps : ProductionDeps ℕ where
  rasterizerAvailable := false
  readBlob _ := .ok []
  assembleImagePdf image _ := .ok image
  validateNoTextLayer _ := .ok false
  renderPlaceholder _ _ _ := .ok []
  stamp pdf _ := .ok pdf

/-- A run of some items, of which nothing is known that could be rendered. -/
def exampleRun (items : ℕ) : FrozenRun ℕ where
  tables := exampleTables ((List.range items).map exampleItem) [] []
    (by rw [List.map_map]; exact (List.map_id _).symm ▸ List.nodup_range) (by simp)
  selectionItemIds := List.range items
  parameters := exampleParameters false (.loadFile .pdf false false) ⟨[], []⟩
  loadFileFormats := [.opt]
  hasStamps := false
  startNumber := 1
  mimeType _ := []
  bodyPlain _ := []

theorem length_itemRows_exampleRun (items : ℕ) :
    (itemRows (exampleRun items).tables (exampleRun items).selectionItemIds).length = items := by
  have hperm : ((itemRows (exampleRun items).tables (exampleRun items).selectionItemIds).map
      EvidenceItem.id).Perm (List.range items) := by
    refine (List.perm_ext_iff_of_nodup (nodup_itemRows _ List.nodup_range) List.nodup_range).mpr ?_
    intro id
    simp [mem_itemRows, exampleRun, exampleTables, exampleItem]
  have hlength := hperm.length_eq
  rw [List.length_map, List.length_range] at hlength
  exact hlength

/-- It writes an OPT file if there are items, and numbers for all of them. -/
theorem exists_opt_exampleRun {items : ℕ} (hpos : 0 < items) (hmax : items < 10 ^ 8) :
    ∃ files text, renderRun exampleDeps (exampleRun items) = .ok files ∧
      files.opt = some text := by
  have hstyle : (exampleRun items).parameters.bates.style.digits = 8 := rfl
  have hstart : (exampleRun items).startNumber = 1 := rfl
  have htotal : ((entries (exampleRun items).tables (exampleRun items).selectionItemIds
      (exampleRun items).parameters).map fun e =>
        (exampleRun items).parameters.bates.numbering.numbersUsed
          (pagesOf exampleDeps (exampleRun items) e.evidenceId)).sum = items := by
    have hone : ∀ id, (exampleRun items).parameters.bates.numbering.numbersUsed
        (pagesOf exampleDeps (exampleRun items) id) = 1 := fun _ => rfl
    simp only [hone, List.map_const', List.sum_replicate, smul_eq_mul, Nat.mul_one,
      entries_perm.length_eq, List.length_map, length_itemRows_exampleRun]
  refine exists_opt (fun _ _ _ => ⟨[], rfl⟩) rfl (List.mem_singleton.mpr rfl) ?_ ?_ ?_
  · refine List.ne_nil_of_length_pos ?_
    rw [length_itemRows_exampleRun]
    exact hpos
  · rw [BatesStyle.Fits, hstyle, hstart]
    decide
  · intro n hn hlt
    rw [htotal, hstart] at hlt
    rw [hstart] at hn
    rw [BatesStyle.Fits, hstyle]
    omega

/-- With 1001 items the OPT file does not match. -/
theorem not_optMatches : ∃ files text, renderRun exampleDeps (exampleRun 1001) = .ok files ∧
    files.opt = some text ∧ ¬ OptMatches text files.produced := by
  obtain ⟨files, text, hrun, hopt⟩ :=
    exists_opt_exampleRun (show 0 < 1001 by decide) (show 1001 < 10 ^ 8 by decide)
  refine ⟨files, text, hrun, hopt, ?_⟩
  obtain ⟨hmode, hread⟩ := readOpt_of_renderRun hrun hopt
  rintro ⟨lines, hlines, hmatch⟩
  obtain rfl := Option.some.inj (hread.symm.trans hlines)
  have hmany := (volumes_iff hrun hmode).mp hmatch.volumes
  rw [length_itemRows_exampleRun] at hmany
  exact absurd hmany (by decide)

/-- With 1000 items it does. -/
theorem optMatches_iff_thousand :
    ∃ files text, renderRun exampleDeps (exampleRun 1000) = .ok files ∧
      files.opt = some text ∧ (OptMatches text files.produced ↔
        (itemRows (exampleRun 1000).tables (exampleRun 1000).selectionItemIds).length ≤
          imagesPerVolume) := by
  obtain ⟨files, text, hrun, hopt⟩ :=
    exists_opt_exampleRun (show 0 < 1000 by decide) (show 1000 < 10 ^ 8 by decide)
  exact ⟨files, text, hrun, hopt, optMatches_iff exampleDeps (exampleRun 1000) files text hrun hopt⟩

end AegCloudDfir.Production
