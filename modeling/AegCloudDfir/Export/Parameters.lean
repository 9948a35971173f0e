import AegCloudDfir.Js.Schema

/-!
# The parameters of an export

Three hand-written shapes say what an export is to do: the contract of the request
(`createExportRequest`), the object `ExportsService.create` freezes, and the schema the
worker reads it with (`exportParameters`). The frozen object leaves out the size of the
parts of a PST export, and the worker takes its default for it.

* `createExportRequest`, `frozenParameters`, `exportParameters` — the three shapes.
* `exportParameters_frozen` — what the worker reads of a frozen request.
* `parametersAgree_iff` — it is what was requested exactly if the request has the default size.
-/

namespace AegCloudDfir.Export.Parameters

open Js Schema

/-! ## The request -/

/-- What an export is made of. -/
inductive Kind : Type where
  | native
  | csv
  | pst
  deriving DecidableEq

/-- What is exported. -/
inductive Selection : Type where
  | items (evidenceItemIds : List JsString)
  | tag (tagId : JsString)
  | savedSearch (savedSearchId : JsString)
  | case (caseId : JsString)
  deriving DecidableEq

/-- `AttachmentLayout` -/
inductive AttachmentLayout : Type where
  | inline
  | extracted
  deriving DecidableEq

/-- What stands between the fields of a CSV file. -/
inductive Delimiter : Type where
  | comma
  | tab
  deriving DecidableEq

/-- The options of a CSV export. -/
structure CsvOptions where
  columns : List JsString
  delimiter : Delimiter
  deriving DecidableEq

/-- What `createExportRequest` returns. -/
structure Request where
  idempotencyKey : JsString
  kind : Kind
  name : JsString
  caseId : Option JsString
  selection : Selection
  includeFamilies : Bool
  attachments : AttachmentLayout
  csv : Option CsvOptions
  archiveSplitMb : ℤ
  pstPartMb : ℤ
  deriving DecidableEq

/-- `ExportParameters` -/
structure ExportParameters where
  selection : Selection
  includeFamilies : Bool
  attachments : AttachmentLayout
  csv : Option CsvOptions
  archiveSplitMb : ℤ
  pstPartMb : ℤ
  deriving DecidableEq

section Shapes

variable (isUuid : JsString → Bool)

/-- The names of the kinds. -/
def kinds : List (JsString × Kind) := [(js "native", .native), (js "csv", .csv), (js "pst", .pst)]

/-- The names of the layouts. -/
def attachmentLayouts : List (JsString × AttachmentLayout) :=
  [(js "inline", .inline), (js "extracted", .extracted)]

/-- The delimiters, as they are written. -/
def delimiters : List (JsString × Delimiter) := [(js ",", .comma), (js "\t", .tab)]

/-- `selection`, a union that `kind` discriminates; the two schemas of it are the same. -/
def selection : Schema Selection :=
  ofObject fun v => do
    let kind ← string (fun _ => true) (property (js "kind") v)
    if kind = js "items" then
      (array (string isUuid) 1 (property (js "evidenceItemIds") v)).map .items
    else if kind = js "tag" then (string isUuid (property (js "tagId") v)).map .tag
    else if kind = js "saved_search" then
      (string isUuid (property (js "savedSearchId") v)).map .savedSearch
    else if kind = js "case" then (string isUuid (property (js "caseId") v)).map .case
    else none

/-- `csv`, which is the same in both schemas, too -/
def csvOptions : Schema CsvOptions :=
  ofObject fun v => do
    let columns ← array (string fun _ => true) 1 (property (js "columns") v)
    let delimiter ← (oneOf delimiters).withDefault .comma (property (js "delimiter") v)
    some ⟨columns, delimiter⟩

/-- `createExportRequest` -/
def createExportRequest : Schema Request :=
  ofObject fun v => do
    let idempotencyKey ←
      string (fun s => 8 ≤ s.length ∧ s.length ≤ 128) (property (js "idempotencyKey") v)
    let kind ← oneOf kinds (property (js "kind") v)
    let name ← string (fun s => 1 ≤ s.length ∧ s.length ≤ 200) (property (js "name") v)
    let caseId ← (string isUuid).optional (property (js "caseId") v)
    let selection ← selection isUuid (property (js "selection") v)
    let includeFamilies ← boolean.withDefault true (property (js "includeFamilies") v)
    let attachments ←
      (oneOf attachmentLayouts).withDefault .inline (property (js "attachments") v)
    let csv ← csvOptions.optional (property (js "csv") v)
    let archiveSplitMb ← (integer 64 10240).withDefault 2048 (property (js "archiveSplitMb") v)
    let pstPartMb ← (integer 64 3072).withDefault 3072 (property (js "pstPartMb") v)
    some ⟨idempotencyKey, kind, name, caseId, selection, includeFamilies, attachments, csv,
      archiveSplitMb, pstPartMb⟩

/-- `exportParameters` -/
def exportParameters : Schema ExportParameters :=
  ofObject fun v => do
    let selection ← selection isUuid (property (js "selection") v)
    let includeFamilies ← boolean.withDefault true (property (js "includeFamilies") v)
    let attachments ←
      (oneOf attachmentLayouts).withDefault .inline (property (js "attachments") v)
    let csv ← csvOptions.optional (property (js "csv") v)
    let archiveSplitMb ← (integer 64 10240).withDefault 2048 (property (js "archiveSplitMb") v)
    let pstPartMb ← (integer 64 3072).withDefault 3072 (property (js "pstPartMb") v)
    some ⟨selection, includeFamilies, attachments, csv, archiveSplitMb, pstPartMb⟩

end Shapes

/-! ## What is frozen -/

/-- A selection in JSON. -/
def Selection.json : Selection → Document
  | .items evidenceItemIds => .obj [(js "kind", .str (js "items")),
      (js "evidenceItemIds", .arr (evidenceItemIds.map .str))]
  | .tag tagId => .obj [(js "kind", .str (js "tag")), (js "tagId", .str tagId)]
  | .savedSearch savedSearchId =>
    .obj [(js "kind", .str (js "saved_search")), (js "savedSearchId", .str savedSearchId)]
  | .case caseId => .obj [(js "kind", .str (js "case")), (js "caseId", .str caseId)]

/-- The name of a layout. -/
def AttachmentLayout.name : AttachmentLayout → JsString
  | .inline => js "inline"
  | .extracted => js "extracted"

/-- How a delimiter is written. -/
def Delimiter.text : Delimiter → JsString
  | .comma => js ","
  | .tab => js "\t"

/-- The options of a CSV export in JSON. -/
def CsvOptions.json (csv : CsvOptions) : Document :=
  .obj [(js "columns", .arr (csv.columns.map .str)), (js "delimiter", .str csv.delimiter.text)]

/-- The `parameters` of the row that `ExportsService.create` writes. -/
def frozenParameters (input : Request) : Document :=
  .obj ([(js "selection", input.selection.json),
      (js "includeFamilies", .bool input.includeFamilies),
      (js "attachments", .str input.attachments.name)] ++
    (match input.csv with
    | some csv => [(js "csv", csv.json)]
    | none => []) ++
    [(js "archiveSplitMb", .num input.archiveSplitMb)])

/-- The worker reads the parameters that were requested. -/
def Agrees (isUuid : JsString → Bool) (input : Request) : Prop :=
  exportParameters isUuid (some (frozenParameters input)) = some
    { selection := input.selection
      includeFamilies := input.includeFamilies
      attachments := input.attachments
      csv := input.csv
      archiveSplitMb := input.archiveSplitMb
      pstPartMb := input.pstPartMb }

/-! ## What the worker reads -/

section Reading

variable {isUuid : JsString → Bool}

theorem property_frozen (input : Request) :
    property (js "selection") (frozenParameters input) = some input.selection.json ∧
    property (js "includeFamilies") (frozenParameters input) = some (.bool input.includeFamilies) ∧
    property (js "attachments") (frozenParameters input) = some (.str input.attachments.name) ∧
    property (js "csv") (frozenParameters input) = input.csv.map CsvOptions.json ∧
    property (js "archiveSplitMb") (frozenParameters input) = some (.num input.archiveSplitMb) ∧
    property (js "pstPartMb") (frozenParameters input) = none := by
  obtain ⟨_, _, _, _, _, _, _, csv, _, _⟩ := input
  cases csv with
  | none | some csv => exact ⟨rfl, rfl, rfl, rfl, rfl, rfl⟩

/-- A selection is read again. -/
theorem rereads_selection : Rereads (selection isUuid) Selection.json := by
  intro v a h
  obtain ⟨_, h⟩ := ofObject_eq_some h
  obtain ⟨kind, -, h⟩ := Option.bind_eq_some_iff.mp h
  split_ifs at h
  · obtain ⟨ids, hids, rfl⟩ := Option.map_eq_some_iff.mp h
    have hread : selection isUuid (some (Selection.items ids).json) =
      (array (string isUuid) 1 (some (.arr (ids.map .str)))).map .items := rfl
    rw [hread, (rereads_string isUuid).array 1 _ _ hids]
    rfl
  · obtain ⟨id, hid, rfl⟩ := Option.map_eq_some_iff.mp h
    have hread : selection isUuid (some (Selection.tag id).json) =
      (string isUuid (some (.str id))).map .tag := rfl
    rw [hread, rereads_string isUuid _ _ hid]
    rfl
  · obtain ⟨id, hid, rfl⟩ := Option.map_eq_some_iff.mp h
    have hread : selection isUuid (some (Selection.savedSearch id).json) =
      (string isUuid (some (.str id))).map .savedSearch := rfl
    rw [hread, rereads_string isUuid _ _ hid]
    rfl
  · obtain ⟨id, hid, rfl⟩ := Option.map_eq_some_iff.mp h
    have hread : selection isUuid (some (Selection.case id).json) =
      (string isUuid (some (.str id))).map .case := rfl
    rw [hread, rereads_string isUuid _ _ hid]
    rfl

/-- The options of a CSV export are read again. -/
theorem rereads_csvOptions : Rereads csvOptions CsvOptions.json := by
  intro v a h
  obtain ⟨_, h⟩ := ofObject_eq_some h
  obtain ⟨columns, hcolumns, h⟩ := Option.bind_eq_some_iff.mp h
  obtain ⟨delimiter, -, h⟩ := Option.bind_eq_some_iff.mp h
  cases h
  have hdelimiter : (oneOf delimiters).withDefault .comma (some (.str delimiter.text)) =
    some delimiter := by cases delimiter <;> rfl
  have hread : csvOptions (some (CsvOptions.mk columns delimiter).json) =
    (array (string fun _ => true) 1 (some (.arr (columns.map .str)))).bind fun columns =>
      ((oneOf delimiters).withDefault .comma (some (.str delimiter.text))).bind fun delimiter =>
        some ⟨columns, delimiter⟩ := rfl
  rw [hread, (rereads_string _).array 1 _ _ hcolumns, Option.bind_some, hdelimiter]
  rfl

/-- What is checked of the properties that are frozen. -/
structure Checked (isUuid : JsString → Bool) (input : Request) : Prop where
  selection : ∃ v, selection isUuid v = some input.selection
  csv : ∀ csv ∈ input.csv, ∃ v, csvOptions v = some csv
  archiveSplitMb : ∃ v, (integer 64 10240).withDefault 2048 v = some input.archiveSplitMb

theorem checked_of_accepted {v : Option Document} {input : Request}
    (h : createExportRequest isUuid v = some input) : Checked isUuid input := by
  obtain ⟨_, h⟩ := ofObject_eq_some h
  simp only [Option.bind_eq_bind, Option.bind_eq_some_iff] at h
  obtain ⟨_, -, _, -, _, -, _, -, _, hselection, _, -, _, -, csv, hcsv, _, harchive, _, -, h⟩ := h
  cases h
  refine ⟨⟨_, hselection⟩, ?_, ⟨_, harchive⟩⟩
  rintro options rfl
  rcases optional_eq_some.mp hcsv with ⟨-, h⟩ | ⟨w, b, -, h, hread⟩
  · cases h
  · cases h
    exact ⟨_, hread⟩

/-- **The worker reads the default size of the parts**, and everything else as it was
requested. -/
theorem exportParameters_frozen {input : Request} (h : Checked isUuid input) :
    exportParameters isUuid (some (frozenParameters input)) = some
      { selection := input.selection
        includeFamilies := input.includeFamilies
        attachments := input.attachments
        csv := input.csv
        archiveSplitMb := input.archiveSplitMb
        pstPartMb := 3072 } := by
  obtain ⟨hselection, hfamilies, hattachments, hcsv, harchive, hpart⟩ := property_frozen input
  obtain ⟨v, hread⟩ := h.selection
  obtain ⟨w, hsplit⟩ := h.archiveSplitMb
  have hselected := rereads_selection v _ hread
  have hlayout : (oneOf attachmentLayouts).withDefault .inline
      (some (.str input.attachments.name)) = some input.attachments := by
    cases input.attachments <;> rfl
  have hoptions : csvOptions.optional (input.csv.map CsvOptions.json) = some input.csv := by
    rcases hinput : input.csv with _ | csv
    · rfl
    · obtain ⟨v, hv⟩ := h.csv csv hinput
      exact optional_eq_some.mpr (.inr ⟨_, csv, rfl, rfl, rereads_csvOptions v csv hv⟩)
  have harchived : (integer 64 10240).withDefault 2048 (some (.num input.archiveSplitMb)) =
      some input.archiveSplitMb := (rereads_integer 64 10240).withDefault (by rfl) _ _ hsplit
  have hobject : exportParameters isUuid (some (frozenParameters input)) =
      (selection isUuid (property (js "selection") (frozenParameters input))).bind fun a =>
      (boolean.withDefault true (property (js "includeFamilies") (frozenParameters input))).bind
        fun b =>
      ((oneOf attachmentLayouts).withDefault .inline
        (property (js "attachments") (frozenParameters input))).bind fun c =>
      (csvOptions.optional (property (js "csv") (frozenParameters input))).bind fun d =>
      ((integer 64 10240).withDefault 2048
        (property (js "archiveSplitMb") (frozenParameters input))).bind fun e =>
      ((integer 64 3072).withDefault 3072
        (property (js "pstPartMb") (frozenParameters input))).bind fun f =>
      some ⟨a, b, c, d, e, f⟩ := rfl
  rw [hobject, hselection, hselected, hfamilies, hattachments, hlayout, hcsv, hoptions, harchive,
    harchived, hpart]
  rfl

/-- **An export runs with the parameters that were requested exactly if the default size of
the parts was.** -/
theorem parametersAgree_iff {v : Option Document} {input : Request}
    (h : createExportRequest isUuid v = some input) :
    Agrees isUuid input ↔ input.pstPartMb = 3072 := by
  rw [Agrees, exportParameters_frozen (checked_of_accepted h)]
  simp only [Option.some.injEq, ExportParameters.mk.injEq, true_and]
  exact eq_comm

end Reading

/-! ## A request for parts of one gibibyte -/

/-- Enough of what `z.string().uuid()` checks. -/
def looksLikeUuid (text : JsString) : Bool := text.length = 36

/-- A request for a PST export of a tag, with a size for the parts. -/
def pstRequest (pstPartMb : ℤ) : Request where
  idempotencyKey := js "export-0001"
  kind := .pst
  name := js "Mailboxes"
  caseId := none
  selection := .tag (js "00000000-0000-4000-8000-000000000001")
  includeFamilies := true
  attachments := .inline
  csv := none
  archiveSplitMb := 2048
  pstPartMb

/-- Its body, which leaves the other defaults to the schema. -/
def pstBody (pstPartMb : ℤ) : Document :=
  .obj [(js "idempotencyKey", .str (js "export-0001")), (js "kind", .str (js "pst")),
    (js "name", .str (js "Mailboxes")),
    (js "selection", (Selection.tag (js "00000000-0000-4000-8000-000000000001")).json),
    (js "pstPartMb", .num pstPartMb)]

theorem parametersAgree_iff_default :
    Agrees looksLikeUuid (pstRequest 3072) ↔ (pstRequest 3072).pstPartMb = 3072 :=
  parametersAgree_iff (v := some (pstBody 3072)) rfl

/-- Parts of 1,024 MiB are asked for, and parts of 3,072 MiB are made. -/
theorem not_agrees_gibibyte : ¬ ∀ (isUuid : JsString → Bool) (v : Option Document)
    (input : Request), createExportRequest isUuid v = some input → Agrees isUuid input := by
  intro h
  have hrequest : createExportRequest looksLikeUuid (some (pstBody 1024)) =
    some (pstRequest 1024) := rfl
  have hagrees := h looksLikeUuid _ _ hrequest
  rw [Agrees, exportParameters_frozen (checked_of_accepted hrequest)] at hagrees
  have hparts := congrArg (Option.map ExportParameters.pstPartMb) hagrees
  exact absurd (Option.some.inj hparts) (by decide)

end AegCloudDfir.Export.Parameters
