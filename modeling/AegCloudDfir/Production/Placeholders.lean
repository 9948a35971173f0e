import AegCloudDfir.Production.Natives
import AegCloudDfir.Production.Rendering

/-!
# What is recorded of a document

The second part of the loop of `processProductionRun`
(`apps/worker/src/processors/production-run.ts`). Behind the image of a document its native and
its text are put, where they are asked for and nothing of the item is redacted, and the document
is recorded by its `outputKind` and its `state`. The exceptions are not modelled.

A placeholder is decided on when the image is made. A native that is put behind it sets
`outputKind` anew, and the state of the document is taken from that.

* `renderEntries_of_recordEntries` — images are made as `renderRun` makes them.
* `recordEntry_reported_iff` — when a document is reported as what it is.
* `reported_iff` — the same of a run.
-/

namespace AegCloudDfir.Production

open Evidence (Buffer)
open Natives (FilenameScheme NativeName numbered numbered_injective pathFor)

/-- `outputKind` of a row -/
inductive RecordedKind : Type where
  | image
  | native
  | imageAndNative
  | placeholder
  | textOnly
  deriving DecidableEq

/-- `state` of a row -/
inductive ItemState : Type where
  | rendered
  | placeholder
  deriving DecidableEq

/-- What natives take: the names a run asks for, and what is read for them. -/
structure NativeDeps (Id : Type) where
  lower : LowerCase
  filenames : FilenameScheme
  /-- `readAllCapped` of what is stored for an item, when it is read for its native -/
  readNative : Id → Except JsString Buffer

/-- `ProducedDraft` -/
structure RecordedDraft (Id : Type) extends RenderedDraft Id where
  outputKind : RecordedKind
  state : ItemState
  nativePath : JsString
  textPath : JsString
  /-- the path and the body of every output -/
  outputs : List (JsString × Buffer)
  /-- what the document was rendered as -/
  page : OutputKind

/-- What `outputKind` is before the native. -/
def OutputKind.recorded : OutputKind → RecordedKind
  | .image => .image
  | .native => .native
  | .placeholder => .placeholder

section Item

variable {Id : Type} [LinearOrder Id] (deps : ProductionDeps Id) (natives : NativeDeps Id)
  (run : FrozenRun Id)

/-- `nativeRequested` -/
def FrozenRun.nativeRequested (id : Id) : Bool :=
  run.tables.items.any fun item => item.id = id ∧
    wantsNative natives.lower.toLowerCase run.tables run.parameters item

/-- The native of a document, and the names in use after it. -/
def nativeOutput (begBates : JsString) (used : List JsString)
    (entry : SortableProductionItem Id) : Option (JsString × Buffer) × List JsString :=
  let id := entry.evidenceId
  if run.nativeRequested natives id && !run.hasFinalRedactions id && run.hasBlob id then
    match natives.readNative id with
    | .error _ => (none, used)
    | .ok body =>
      -- one name more is tried than there are in use
      match pathFor natives.lower natives.filenames (used.length + 1) used
          ⟨begBates, entry.fileName⟩ with
      | none => (none, used)
      | some (path, used) => (some (path, body), used)
  else (none, used)

/-- `includeText` -/
def includeText : Bool :=
  match run.parameters.output with
  | .loadFile _ _ includeText => includeText
  | .nativesOnly => false
  | .pdfOnly => true

/-- The text of a document. -/
def textOutput (begBates : JsString) (entry : SortableProductionItem Id) :
    Option (JsString × Buffer) :=
  let id := entry.evidenceId
  if includeText run && !run.hasFinalRedactions id then
    let textContent := (run.bestText id).orElse fun _ =>
      if id ∈ run.tables.extractedTexts then some (js "(see extracted text derivative)") else none
    textContent.map fun text => (js "TEXT/" ++ begBates ++ js ".txt", toUtf8 text)
  else none

/-- The path of an output, empty if there is none. -/
def outputPath (output : Option (JsString × Buffer)) : JsString := (output.map Prod.fst).getD []

/-- An entry of the loop, with the names of natives. -/
def recordEntry (counter : BatesCounter) (imageIndex sortIndex : ℕ) (used : List JsString)
    (entry : SortableProductionItem Id) :
    Except JsString (RecordedDraft Id × BatesCounter × List JsString) := do
  let (draft, after) ← renderEntry deps run counter imageIndex sortIndex entry
  let page := (renderedItem deps run counter entry).outputKind
  let (asNative, used) := nativeOutput natives run draft.begBates used entry
  let outputKind := match asNative with
    | some _ => if draft.uploads ≠ [] then RecordedKind.imageAndNative else .native
    | none => page.recorded
  let text := textOutput run draft.begBates entry
  pure ({ draft with
          outputKind
          state := if outputKind = .placeholder then .placeholder else .rendered
          nativePath := outputPath asNative
          textPath := outputPath text
          outputs := draft.uploads ++ asNative.toList ++ text.toList
          page }, after, used)

/-- The loop over the sorted items. -/
def recordEntries : BatesCounter → ℕ → ℕ → List JsString → List (SortableProductionItem Id) →
    Except JsString (List (RecordedDraft Id))
  | _, _, _, _, [] => .ok []
  | counter, imageIndex, sortIndex, used, entry :: rest => do
    let (draft, after, used) ← recordEntry deps natives run counter imageIndex sortIndex used entry
    let drafts ← recordEntries after (imageIndex + draft.imagePaths.length) (sortIndex + 1) used
      rest
    .ok (draft :: drafts)

/-- A draft with the range of its group. -/
def RecordedDraft.attach (groups : JsMap Id (List (ProducedDraft Id))) (draft : RecordedDraft Id) :
    RecordedDraft Id :=
  { draft with toRenderedDraft := draft.toRenderedDraft.attach groups }

/-- `processProductionRun`, up to the rows that are recorded and the OPT file. -/
def recordRun : Except JsString (List (RecordedDraft Id) × Option JsString) := do
  let bates := run.parameters.bates
  let counter ← (BatesCounter.new bates.style bates.numbering run.startNumber).mapError
    BatesError.message
  let drafts ← recordEntries deps natives run counter 0 0 []
    (entries run.tables run.selectionItemIds run.parameters)
  let groups := familyGroups (drafts.map fun draft => draft.toProducedDraft)
  let produced := drafts.map (RecordedDraft.attach groups)
  let opt ← optFile run (produced.map RecordedDraft.toRenderedDraft)
  .ok (produced, opt)

/-! ## What is to be reported -/

/-- A document is reported as what it is. -/
structure Reported (draft : RecordedDraft Id) : Prop where
  /-- a placeholder as one -/
  placeholder : draft.page = .placeholder →
    draft.state = .placeholder ∧ draft.outputKind = .placeholder
  /-- what is rendered without a reason for a placeholder -/
  rendered : draft.state = .rendered → draft.placeholderReason = []
  /-- of what is redacted there are images only -/
  redacted : run.hasFinalRedactions draft.evidenceItemId = true →
    draft.nativePath = [] ∧ draft.textPath = [] ∧ draft.outputs = draft.uploads

/-- Nothing can be made of an item that is not redacted: it has no pages and no text to show, or
what it has cannot be read, assembled or rendered. -/
inductive Unrenderable (counter : BatesCounter) (entry : SortableProductionItem Id) : Prop where
  | pdf (message : JsString) (hmime : run.mimeType entry.evidenceId = js "application/pdf")
      (hread : deps.readBlob entry.evidenceId = .error message)
  | image (hmime : run.mimeType entry.evidenceId = js "image/png" ∨
        run.mimeType entry.evidenceId = js "image/jpeg")
      (hmade : ∀ image pdf, deps.readBlob entry.evidenceId = .ok image →
        deps.assembleImagePdf image (if run.mimeType entry.evidenceId = js "image/png" then
          js "png" else js "jpeg") ≠ .ok pdf)
  | text (hmime : run.mimeType entry.evidenceId ∉
        [js "application/pdf", js "image/png", js "image/jpeg"])
      (hmade : ((run.bestText entry.evidenceId).isSome ∨
          entry.evidenceId ∈ run.tables.extractedTexts) →
        ∀ label pdf, formatBates counter.style counter.next = .ok label →
          deps.renderPlaceholder (js "Simplified text rendering of \"" ++ entry.fileName ++
            js "\". Full extracted text accompanies this document in TEXT/.") entry.evidenceId
              label ≠ .ok pdf)

/-- A native is put behind a placeholder: it is asked for and can be read, nothing is redacted,
pages are asked for as well, and there are none. -/
structure Overwritten (counter : BatesCounter) (entry : SortableProductionItem Id) : Prop where
  requested : run.nativeRequested natives entry.evidenceId = true
  unredacted : run.hasFinalRedactions entry.evidenceId = false
  stored : run.hasBlob entry.evidenceId = true
  readable : ∃ body, natives.readNative entry.evidenceId = .ok body
  paged : run.parameters.output ≠ .nativesOnly
  unrenderable : Unrenderable deps run counter entry

/-- The entries of a run, each with the counter before it. -/
def visits : BatesCounter → List (SortableProductionItem Id) →
    List (BatesCounter × SortableProductionItem Id)
  | _, [] => []
  | counter, entry :: rest =>
    (counter, entry) :: match counter.nextDocument (pagesOf deps run entry.evidenceId) with
      | .ok (_, after) => visits after rest
      | .error _ => []

end Item

/-! ## Placeholders -/

section Placeholder

variable {Id : Type} [LinearOrder Id] {deps : ProductionDeps Id} {natives : NativeDeps Id}
  {run : FrozenRun Id} {counter : BatesCounter} {entry : SortableProductionItem Id}

theorem placeholder_reason {reason : JsString} (h : reason ≠ []) :
    (Rendered.placeholder reason).outputKind = .placeholder ↔
      (Rendered.placeholder reason).placeholderReason ≠ [] :=
  iff_of_true rfl h

theorem image_reason (pdf : Buffer) (pageCount : ℕ) :
    (Rendered.image pdf pageCount).outputKind = .placeholder ↔
      (Rendered.image pdf pageCount).placeholderReason ≠ [] :=
  iff_of_false (by rintro ⟨⟩) fun h => h rfl

/-- What fails gives a reason. -/
theorem failed_reason (message : JsString) :
    (Rendered.ofResult (.error message)).outputKind = .placeholder ↔
      (Rendered.ofResult (.error message)).placeholderReason ≠ [] :=
  placeholder_reason (List.append_ne_nil_of_left_ne_nil (List.cons_ne_nil _ _) _)

/-- A PDF that is made from what may fail gives a reason only if it fails. -/
theorem ofResult_reason (x : Except JsString Buffer) (pageCount : Buffer → ℕ) :
    (Rendered.ofResult (do let pdf ← x; pure (.image pdf (pageCount pdf)))).outputKind =
        .placeholder ↔
      (Rendered.ofResult (do let pdf ← x; pure (.image pdf (pageCount pdf)))).placeholderReason ≠
        [] := by
  rcases x with message | pdf
  · exact failed_reason message
  · exact image_reason pdf _

variable (deps run counter entry) in
/-- **A reason is given for placeholders**, and for nothing else. -/
theorem renderedItem_reason :
    (renderedItem deps run counter entry).outputKind = .placeholder ↔
      (renderedItem deps run counter entry).placeholderReason ≠ [] := by
  rw [renderedItem, renderItem]
  by_cases hredacted : run.hasFinalRedactions entry.evidenceId
  · rw [if_pos hredacted]
    rcases deps.rasterizerAvailable with _ | _
    · exact placeholder_reason (List.append_ne_nil_of_left_ne_nil (List.cons_ne_nil _ _) _)
    · rcases renderRedacted deps with message | _ | pdf
      · exact failed_reason message
      · exact placeholder_reason (List.append_ne_nil_of_left_ne_nil (List.cons_ne_nil _ _) _)
      · exact image_reason pdf _
  rw [if_neg hredacted]
  by_cases hnatives : run.parameters.output = .nativesOnly
  · rw [if_pos hnatives]
    exact iff_of_false (by rintro ⟨⟩) fun h => h rfl
  rw [if_neg hnatives]
  by_cases hpdf : run.mimeType entry.evidenceId = js "application/pdf" ∧
      run.hasBlob entry.evidenceId
  · rw [if_pos hpdf]
    exact ofResult_reason (deps.readBlob entry.evidenceId) countPdfPagesApprox
  rw [if_neg hpdf]
  by_cases himage : (run.mimeType entry.evidenceId = js "image/png" ∨
      run.mimeType entry.evidenceId = js "image/jpeg") ∧ run.hasBlob entry.evidenceId
  · rw [if_pos himage]
    rcases deps.readBlob entry.evidenceId with message | image
    · exact failed_reason message
    · exact ofResult_reason (deps.assembleImagePdf image _) fun _ => 1
  rw [if_neg himage]
  by_cases htext : (run.bestText entry.evidenceId).isSome ∨
      entry.evidenceId ∈ run.tables.extractedTexts
  · rw [if_pos htext]
    rcases formatBates counter.style counter.next with error | label
    · exact failed_reason error.message
    · exact ofResult_reason (deps.renderPlaceholder _ entry.evidenceId label) fun _ => 1
  · rw [if_neg htext]
    exact placeholder_reason (List.cons_ne_nil _ _)

/-- A PDF that is made becomes an image. -/
theorem ofResult_placeholder_iff (x : Except JsString Buffer) (pageCount : Buffer → ℕ) :
    (Rendered.ofResult (do let pdf ← x; pure (.image pdf (pageCount pdf)))).outputKind =
        .placeholder ↔ ∀ pdf, x ≠ .ok pdf := by
  rcases x with message | pdf
  · exact iff_of_true rfl (by rintro pdf ⟨⟩)
  · exact iff_of_false (by rintro ⟨⟩) fun h => h pdf rfl

/-- An item that is not redacted becomes a placeholder exactly if it is not renderable, unless only
natives are produced. -/
theorem renderedItem_placeholder_iff (hunredacted : run.hasFinalRedactions entry.evidenceId = false)
    (hstored : run.hasBlob entry.evidenceId = true)
    (hpaged : run.parameters.output ≠ .nativesOnly) :
    (renderedItem deps run counter entry).outputKind = .placeholder ↔
      Unrenderable deps run counter entry := by
  rw [renderedItem, renderItem, if_neg (ne_true_of_eq_false hunredacted), if_neg hpaged]
  by_cases hpdf : run.mimeType entry.evidenceId = js "application/pdf"
  · rw [if_pos ⟨hpdf, hstored⟩]
    refine (ofResult_placeholder_iff _ countPdfPagesApprox).trans ⟨fun h => ?_, ?_⟩
    · rcases hread : deps.readBlob entry.evidenceId with message | pdf
      · exact .pdf message hpdf hread
      · exact absurd hread (h pdf)
    · rintro (⟨message, -, hread⟩ | ⟨hmime, -⟩ | ⟨hmime, -⟩) pdf hok
      · rw [hread] at hok
        cases hok
      · rw [hpdf] at hmime
        exact absurd hmime (by decide)
      · rw [hpdf] at hmime
        exact absurd hmime (by decide)
  rw [if_neg fun h => hpdf h.1]
  by_cases himage : run.mimeType entry.evidenceId = js "image/png" ∨
      run.mimeType entry.evidenceId = js "image/jpeg"
  · rw [if_pos ⟨himage, hstored⟩]
    have hothers : Unrenderable deps run counter entry ↔
        ∀ image pdf, deps.readBlob entry.evidenceId = .ok image →
          deps.assembleImagePdf image (if run.mimeType entry.evidenceId = js "image/png" then
            js "png" else js "jpeg") ≠ .ok pdf := by
      refine ⟨?_, .image himage⟩
      rintro (⟨_, hmime, -⟩ | ⟨-, hmade⟩ | ⟨hmime, -⟩)
      · exact absurd hmime hpdf
      · exact hmade
      · simp only [List.mem_cons, List.not_mem_nil, or_false, not_or] at hmime
        exact absurd himage (not_or.mpr hmime.2)
    rw [hothers]
    rcases hread : deps.readBlob entry.evidenceId with message | image
    · exact iff_of_true rfl (by rintro _ _ ⟨⟩)
    · refine (ofResult_placeholder_iff _ fun _ => 1).trans ⟨fun h image' pdf himage' => ?_, ?_⟩
      · obtain rfl := Except.ok.inj himage'
        exact h pdf
      · exact fun h pdf => h image pdf rfl
  rw [if_neg fun h => himage h.1]
  have hmime : run.mimeType entry.evidenceId ∉
      [js "application/pdf", js "image/png", js "image/jpeg"] := by
    simp only [List.mem_cons, List.not_mem_nil, or_false, not_or]
    exact ⟨hpdf, not_or.mp himage⟩
  have hothers : Unrenderable deps run counter entry ↔
      (((run.bestText entry.evidenceId).isSome ∨ entry.evidenceId ∈ run.tables.extractedTexts) →
        ∀ label pdf, formatBates counter.style counter.next = .ok label →
          deps.renderPlaceholder (js "Simplified text rendering of \"" ++ entry.fileName ++
            js "\". Full extracted text accompanies this document in TEXT/.") entry.evidenceId
              label ≠ .ok pdf) := by
    refine ⟨?_, .text hmime⟩
    rintro (⟨_, hother, -⟩ | ⟨hother, -⟩ | ⟨-, hmade⟩)
    · exact absurd hother hpdf
    · exact absurd hother himage
    · exact hmade
  rw [hothers]
  by_cases htext : (run.bestText entry.evidenceId).isSome ∨
      entry.evidenceId ∈ run.tables.extractedTexts
  · rw [if_pos htext, imp_iff_right htext]
    rcases hlabel : formatBates counter.style counter.next with error | label
    · exact iff_of_true rfl (by rintro _ _ ⟨⟩)
    · refine (ofResult_placeholder_iff _ fun _ => 1).trans ⟨fun h label' pdf hlabel' => ?_, ?_⟩
      · obtain rfl := Except.ok.inj hlabel'
        exact h pdf
      · exact fun h pdf => h label pdf rfl
  · rw [if_neg htext]
    exact iff_of_true rfl fun h => absurd h htext

end Placeholder

/-! ## An entry -/

section Entry

variable {Id : Type} [LinearOrder Id] {deps : ProductionDeps Id} {natives : NativeDeps Id}
  {run : FrozenRun Id} {counter after : BatesCounter} {entry : SortableProductionItem Id}
  {imageIndex sortIndex : ℕ} {used later : List JsString} {draft : RecordedDraft Id}

/-- There is always a free name. -/
theorem exists_pathFor (lower : LowerCase) (scheme : FilenameScheme) (used : List JsString)
    (input : NativeName) :
    ∃ path later, pathFor lower scheme (used.length + 1) used input = some (path, later) := by
  have hname : ∃ name, Naming.allocate lower.toLowerCase numbered (used.length + 1) used
      (Natives.baseName scheme input) = some name := by
    rw [Naming.allocate]
    split_ifs
    · exact Naming.exists_seek (numbered_injective lower _) (Nat.lt_succ_self _) 1
    · exact ⟨_, rfl⟩
  obtain ⟨name, hname⟩ := hname
  refine ⟨js "NATIVES" ++ unitOf '/' :: name, lower.toLowerCase name :: used, ?_⟩
  rw [pathFor, hname]
  rfl

/-- There is a native exactly if it is asked for, nothing is redacted, and it can be read. -/
theorem nativeOutput_eq_none_iff {begBates : JsString} :
    (nativeOutput natives run begBates used entry).1 = none ↔
      ¬ (run.nativeRequested natives entry.evidenceId = true ∧
        run.hasFinalRedactions entry.evidenceId = false ∧
        run.hasBlob entry.evidenceId = true ∧
        ∃ body, natives.readNative entry.evidenceId = .ok body) := by
  rw [nativeOutput]
  split_ifs with hgiven
  · simp only [Bool.and_eq_true, Bool.not_eq_true'] at hgiven
    rcases hread : natives.readNative entry.evidenceId with message | body
    · refine iff_of_true rfl ?_
      rintro ⟨-, -, -, _, ⟨⟩⟩
    · obtain ⟨path, later, hpath⟩ := exists_pathFor natives.lower natives.filenames used
        ⟨begBates, entry.fileName⟩
      dsimp only
      rw [hpath]
      exact iff_of_false (by rintro ⟨⟩)
        fun h => h ⟨hgiven.1.1, hgiven.1.2, hgiven.2, body, rfl⟩
  · refine iff_of_true rfl fun h => hgiven ?_
    simp [h.1, h.2.1, h.2.2.1]

/-- What an entry is recorded as. -/
theorem recordEntry_ok
    (h : recordEntry deps natives run counter imageIndex sortIndex used entry =
      .ok (draft, after, later)) :
    renderEntry deps run counter imageIndex sortIndex entry = .ok (draft.toRenderedDraft, after) ∧
      draft.page = (renderedItem deps run counter entry).outputKind ∧
      draft.outputKind = (match (nativeOutput natives run draft.begBates used entry).1 with
        | some _ => if draft.uploads ≠ [] then RecordedKind.imageAndNative else .native
        | none => draft.page.recorded) ∧
      draft.state = (if draft.outputKind = .placeholder then .placeholder else .rendered) ∧
      draft.nativePath = outputPath (nativeOutput natives run draft.begBates used entry).1 ∧
      draft.textPath = outputPath (textOutput run draft.begBates entry) ∧
      draft.outputs = draft.uploads ++
        (nativeOutput natives run draft.begBates used entry).1.toList ++
        (textOutput run draft.begBates entry).toList := by
  obtain ⟨⟨rendered, behind⟩, hrender, h⟩ := bind_eq_ok.mp h
  obtain ⟨rfl, hafter⟩ := Prod.mk.inj (Except.ok.inj h)
  obtain ⟨rfl, rfl⟩ := Prod.mk.inj hafter
  exact ⟨hrender, rfl, rfl, rfl, rfl, rfl, rfl⟩

omit [LinearOrder Id] in
theorem recorded_eq_placeholder_iff {page : OutputKind} :
    page.recorded = .placeholder ↔ page = .placeholder := by
  cases page <;> decide

/-- The reason that is recorded is that of the rendering. -/
theorem renderEntry_reason {rendered : RenderedDraft Id}
    (h : renderEntry deps run counter imageIndex sortIndex entry = .ok (rendered, after)) :
    rendered.placeholderReason = (renderedItem deps run counter entry).placeholderReason ∧
      rendered.evidenceItemId = entry.evidenceId := by
  obtain ⟨⟨bates, behind⟩, -, h⟩ := bind_eq_ok.mp h
  dsimp only at h
  split_ifs at h
  all_goals
    obtain ⟨pdfBytes, -, h⟩ := bind_eq_ok.mp h
    obtain ⟨uploads, -, h⟩ := bind_eq_ok.mp h
    obtain ⟨rfl, rfl⟩ := Prod.mk.inj (Except.ok.inj h)
    exact ⟨rfl, rfl⟩

/-- **An entry** is reported as what it is exactly if no native is put behind a placeholder. -/
theorem recordEntry_reported_iff
    (h : recordEntry deps natives run counter imageIndex sortIndex used entry =
      .ok (draft, after, later)) :
    Reported run draft ↔ ¬ Overwritten deps natives run counter entry := by
  obtain ⟨hrender, hpage, hkind, hstate, hnative, htext, houtputs⟩ := recordEntry_ok h
  obtain ⟨hreason, hid⟩ := renderEntry_reason hrender
  have hplaceholder : draft.page = .placeholder ↔ draft.placeholderReason ≠ [] := by
    rw [hpage, hreason]
    exact renderedItem_reason deps run counter entry
  rcases houtput : (nativeOutput natives run draft.begBates used entry).1 with _ | native
  · -- without a native the kind is that of the rendering
    rw [houtput] at hkind hnative houtputs
    have hnot := nativeOutput_eq_none_iff.mp houtput
    have hkept : draft.outputKind = .placeholder ↔ draft.page = .placeholder := by
      rw [hkind]
      exact recorded_eq_placeholder_iff
    refine iff_of_true ⟨fun hmade => ?_, fun hrendered => ?_, fun hredacted => ?_⟩ fun hover =>
      hnot ⟨hover.requested, hover.unredacted, hover.stored, hover.readable⟩
    · have hmarked := hkept.mpr hmade
      exact ⟨by rw [hstate, if_pos hmarked], hmarked⟩
    · by_contra hsome
      rw [hstate, if_pos (hkept.mpr (hplaceholder.mpr hsome))] at hrendered
      cases hrendered
    · rw [hid] at hredacted
      have hnone : textOutput run draft.begBates entry = none := by
        rw [textOutput, hredacted]
        simp
      rw [hnone] at htext houtputs
      exact ⟨hnative, htext, by rw [houtputs]; simp⟩
  · rw [houtput] at hkind
    have hgiven := not_not.mp (mt nativeOutput_eq_none_iff.mpr
      (by rw [houtput]; exact Option.some_ne_none native))
    have hkept : draft.outputKind ≠ .placeholder := by
      rw [hkind]
      dsimp only
      split_ifs <;> decide
    have hrendered : draft.state = .rendered := by rw [hstate, if_neg hkept]
    by_cases hnatives : run.parameters.output = .nativesOnly
    · have hmade : draft.page ≠ .placeholder := by
        rw [hpage, renderedItem, renderItem, if_neg (ne_true_of_eq_false hgiven.2.1),
          if_pos hnatives]
        rintro ⟨⟩
      refine iff_of_true ⟨fun h => absurd h hmade, fun _ => ?_, fun hredacted => ?_⟩
        fun hover => hover.paged hnatives
      · exact not_not.mp (mt hplaceholder.mpr hmade)
      · rw [hid, hgiven.2.1] at hredacted
        cases hredacted
    · have hmade : draft.page = .placeholder ↔ Unrenderable deps run counter entry := by
        rw [hpage]
        exact renderedItem_placeholder_iff hgiven.2.1 hgiven.2.2.1 hnatives
      refine ⟨fun hreported hover => ?_,
        fun hnot => ⟨fun h => ?_, fun _ => ?_, fun hredacted => ?_⟩⟩
      · exact hkept (hreported.placeholder (hmade.mpr hover.unrenderable)).2
      · exact absurd ⟨hgiven.1, hgiven.2.1, hgiven.2.2.1, hgiven.2.2.2, hnatives, hmade.mp h⟩ hnot
      · by_contra hsome
        exact hnot ⟨hgiven.1, hgiven.2.1, hgiven.2.2.1, hgiven.2.2.2, hnatives,
          hmade.mp (hplaceholder.mpr hsome)⟩
      · rw [hid, hgiven.2.1] at hredacted
        cases hredacted

end Entry

/-! ## The run -/

section Run

variable {Id : Type} [LinearOrder Id] {deps : ProductionDeps Id} {natives : NativeDeps Id}
  {run : FrozenRun Id}

/-- The loop makes the images that `renderEntries` makes. -/
theorem renderEntries_of_recordEntries {counter : BatesCounter} {imageIndex sortIndex : ℕ}
    {used : List JsString} {entries : List (SortableProductionItem Id)}
    {drafts : List (RecordedDraft Id)}
    (h : recordEntries deps natives run counter imageIndex sortIndex used entries = .ok drafts) :
    renderEntries deps run counter imageIndex sortIndex entries =
      .ok (drafts.map RecordedDraft.toRenderedDraft) := by
  induction entries generalizing counter imageIndex sortIndex used drafts with
  | nil =>
    obtain rfl := Except.ok.inj h
    rfl
  | cons entry rest ih =>
    obtain ⟨⟨draft, after, later⟩, hentry, h⟩ := bind_eq_ok.mp h
    obtain ⟨others, hothers, h⟩ := bind_eq_ok.mp h
    obtain rfl := Except.ok.inj h
    refine bind_eq_ok.mpr ⟨_, (recordEntry_ok hentry).1, ?_⟩
    exact bind_eq_ok.mpr ⟨_, ih hothers, rfl⟩

/-- **Refinement.** The images and the OPT file of a run are those of `renderRun`. -/
theorem renderRun_of_recordRun {produced : List (RecordedDraft Id)} {opt : Option JsString}
    (h : recordRun deps natives run = .ok (produced, opt)) :
    renderRun deps run = .ok ⟨produced.map RecordedDraft.toRenderedDraft, opt⟩ := by
  obtain ⟨counter, hcounter, h⟩ := bind_eq_ok.mp h
  obtain ⟨drafts, hdrafts, h⟩ := bind_eq_ok.mp h
  obtain ⟨file, hfile, h⟩ := bind_eq_ok.mp h
  obtain ⟨rfl, rfl⟩ := Prod.mk.inj (Except.ok.inj h)
  refine bind_eq_ok.mpr ⟨counter, hcounter, ?_⟩
  refine bind_eq_ok.mpr ⟨_, renderEntries_of_recordEntries hdrafts, ?_⟩
  have hattach : ∀ groups : JsMap Id (List (ProducedDraft Id)),
      (drafts.map RecordedDraft.toRenderedDraft).map (RenderedDraft.attach groups) =
        (drafts.map (RecordedDraft.attach groups)).map RecordedDraft.toRenderedDraft := by
    intro groups
    rw [List.map_map, List.map_map]
    rfl
  rw [List.map_map]
  dsimp only
  rw [hattach]
  exact bind_eq_ok.mpr ⟨_, hfile, rfl⟩

/-- Ranges are no matter of what is reported. -/
theorem reported_attach_iff (groups : JsMap Id (List (ProducedDraft Id)))
    (draft : RecordedDraft Id) : Reported run (draft.attach groups) ↔ Reported run draft := by
  have hid : (draft.attach groups).evidenceItemId = draft.evidenceItemId :=
    attach_evidenceItemId groups draft.toProducedDraft
  refine ⟨fun h => ⟨h.placeholder, h.rendered, fun hredacted => h.redacted ?_⟩,
    fun h => ⟨h.placeholder, h.rendered, fun hredacted => h.redacted ?_⟩⟩
  · rwa [hid]
  · rwa [hid] at hredacted

/-- Every entry of the loop is visited with the counter before it. -/
theorem recordEntries_reported_iff {counter : BatesCounter} {imageIndex sortIndex : ℕ}
    {used : List JsString} {entries : List (SortableProductionItem Id)}
    {drafts : List (RecordedDraft Id)}
    (h : recordEntries deps natives run counter imageIndex sortIndex used entries = .ok drafts) :
    (∀ draft ∈ drafts, Reported run draft) ↔
      ∀ visit ∈ visits deps run counter entries,
        ¬ Overwritten deps natives run visit.1 visit.2 := by
  induction entries generalizing counter imageIndex sortIndex used drafts with
  | nil =>
    obtain rfl := Except.ok.inj h
    exact iff_of_true (by rintro _ ⟨⟩) (by rintro _ ⟨⟩)
  | cons entry rest ih =>
    obtain ⟨⟨draft, after, later⟩, hentry, h⟩ := bind_eq_ok.mp h
    obtain ⟨others, hothers, h⟩ := bind_eq_ok.mp h
    obtain rfl := Except.ok.inj h
    obtain ⟨bates, hnext, -⟩ := renderEntry_ok (recordEntry_ok hentry).1
    have hrest : (∀ other ∈ others, Reported run other) ↔
        ∀ visit ∈ visits deps run after rest, ¬ Overwritten deps natives run visit.1 visit.2 :=
      ih hothers
    rw [visits, hnext, List.forall_mem_cons, List.forall_mem_cons,
      recordEntry_reported_iff hentry, hrest]

/-- **Placeholders are reported as placeholders** in a finished run exactly if no native is put
behind one. -/
theorem reported_iff (deps : ProductionDeps Id) (natives : NativeDeps Id) (run : FrozenRun Id)
    (produced : List (RecordedDraft Id)) (opt : Option JsString)
    (h : recordRun deps natives run = .ok (produced, opt)) :
    (∀ draft ∈ produced, Reported run draft) ↔
      ∀ visit ∈ visits deps run
          ⟨run.parameters.bates.style, run.parameters.bates.numbering, run.startNumber⟩
          (entries run.tables run.selectionItemIds run.parameters),
        ¬ Overwritten deps natives run visit.1 visit.2 := by
  obtain ⟨counter, hcounter, h⟩ := bind_eq_ok.mp h
  obtain ⟨drafts, hdrafts, h⟩ := bind_eq_ok.mp h
  obtain ⟨file, -, h⟩ := bind_eq_ok.mp h
  obtain ⟨rfl, rfl⟩ := Prod.mk.inj (Except.ok.inj h)
  obtain rfl := BatesCounter.new_ok (mapError_eq_ok.mp hcounter)
  rw [List.forall_mem_map, ← recordEntries_reported_iff hdrafts]
  exact forall₂_congr fun draft _ => reported_attach_iff _ draft

/-- **What is recorded refines the numbering.** The documents of a run are those that
`processProductionRun` makes of the pages, and where images are produced, there is one for every
item, with a number of its own. -/
theorem recordRun_refines {produced : List (RecordedDraft Id)} {opt : Option JsString}
    (h : recordRun deps natives run = .ok (produced, opt)) :
    processProductionRun run.tables run.selectionItemIds run.parameters run.startNumber
        (pagesOf deps run) = .ok (produced.map fun d => d.toProducedDraft) ∧
      (run.parameters.output ≠ .nativesOnly →
        produced.length = (itemRows run.tables run.selectionItemIds).length ∧
          produced.Pairwise fun d e => d.begBates ≠ e.begBates) := by
  have hrender := renderRun_of_recordRun h
  refine ⟨?_, fun hmode => ?_⟩
  · rw [processProductionRun_of_renderRun hrender, List.map_map]
    rfl
  · obtain ⟨-, hdistinct, hlength⟩ := placed_of_renderRun hrender hmode
    rw [List.pairwise_map] at hdistinct
    exact ⟨(List.length_map ..).symm.trans hlength, hdistinct⟩

end Run

/-! ## A native behind a placeholder -/

/-- Natives that can all be read. -/
def exampleNatives : NativeDeps ℕ where
  lower := asciiLowerCase
  filenames := .bates
  readNative _ := .ok []

/-- A run of one item without a rendering, with natives of its kind. -/
def nativeRun : FrozenRun ℕ where
  tables := oneItem
  selectionItemIds := [1]
  parameters := exampleParameters false (.loadFile .pdf true false) ⟨[js "pdf"], []⟩
  loadFileFormats := [.opt]
  hasStamps := false
  startNumber := 1
  mimeType _ := []
  bodyPlain _ := []

/-- A run has finished, and some document of it passes a test. -/
def finishedWith (test : RecordedDraft ℕ → Bool)
    (result : Except JsString (List (RecordedDraft ℕ) × Option JsString)) : Bool :=
  match result with
  | .ok (produced, _) => produced.any test
  | .error _ => false

theorem exists_of_finishedWith {test : RecordedDraft ℕ → Bool}
    {result : Except JsString (List (RecordedDraft ℕ) × Option JsString)}
    (h : finishedWith test result = true) :
    ∃ produced opt, result = .ok (produced, opt) ∧ ∃ draft ∈ produced, test draft = true := by
  rcases result with message | ⟨produced, opt⟩
  · cases h
  · exact ⟨produced, opt, rfl, List.any_eq_true.mp h⟩

theorem reported_iff_nativeRun :
    ∃ produced opt, recordRun exampleDeps exampleNatives nativeRun = .ok (produced, opt) ∧
      ((∀ draft ∈ produced, Reported nativeRun draft) ↔
        ∀ visit ∈ visits exampleDeps nativeRun
            ⟨nativeRun.parameters.bates.style, nativeRun.parameters.bates.numbering, 1⟩
            (entries nativeRun.tables nativeRun.selectionItemIds nativeRun.parameters),
          ¬ Overwritten exampleDeps exampleNatives nativeRun visit.1 visit.2) := by
  have hfinished : finishedWith (fun _ => true)
      (recordRun exampleDeps exampleNatives nativeRun) = true := by decide +kernel
  obtain ⟨produced, opt, hrun, -⟩ := exists_of_finishedWith hfinished
  exact ⟨produced, opt, hrun,
    reported_iff exampleDeps exampleNatives nativeRun produced opt hrun⟩

theorem recordRun_refines_nativeRun :
    ∃ produced opt, recordRun exampleDeps exampleNatives nativeRun = .ok (produced, opt) ∧
      produced.length = (itemRows nativeRun.tables nativeRun.selectionItemIds).length := by
  have hfinished : finishedWith (fun _ => true)
      (recordRun exampleDeps exampleNatives nativeRun) = true := by decide +kernel
  obtain ⟨produced, opt, hrun, -⟩ := exists_of_finishedWith hfinished
  exact ⟨produced, opt, hrun, ((recordRun_refines hrun).2 (by decide)).1⟩

/-- The placeholder is recorded as rendered. -/
theorem placeholder_not_reported :
    ∃ produced opt, recordRun exampleDeps exampleNatives nativeRun = .ok (produced, opt) ∧
      ¬ ∀ draft ∈ produced, Reported nativeRun draft := by
  have hfinished : finishedWith
      (fun draft => decide (draft.page = .placeholder ∧ draft.state = .rendered))
      (recordRun exampleDeps exampleNatives nativeRun) = true := by decide +kernel
  obtain ⟨produced, opt, hrun, draft, hdraft, htest⟩ := exists_of_finishedWith hfinished
  obtain ⟨hpage, hstate⟩ := of_decide_eq_true htest
  refine ⟨produced, opt, hrun, fun h => ?_⟩
  have hmarked := ((h draft hdraft).placeholder hpage).1
  rw [hstate] at hmarked
  cases hmarked

end AegCloudDfir.Production
