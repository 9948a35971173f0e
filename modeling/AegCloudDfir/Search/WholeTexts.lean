import AegCloudDfir.Lib.Budget
import AegCloudDfir.Processing.TextStages

/-!
# Texts that are missing from the index

`processSearchIndex` loads the texts of an item in the order in which the database returns their
rows, up to `MAX_TEXT_TOTAL_BYTES` in all: a text that is longer than what is left is left out
altogether. It takes so many OCR pages and audit records, and no more. The stages before it have
caps of their own (`Processing.TextStages`). Of all of them, only the page cap of OCR and one cap of
the extraction are reported.

* `indexed` — the document of an item whose jobs have completed.
* `NothingSilent` — every text that was found is whole in the document, or the item says that text
  was cut or left out.
* `nothingSilent_iff` — for which items that is so.
-/

namespace AegCloudDfir.Search.WholeTexts

open Budget (taken)
open Evidence (Buffer)
open Processing.TextStages
open Production (EvidenceKind)

/-! ## The document -/

/-- The order in which the database returns the texts of an item. -/
structure RowOrder where
  order : List ExtractedText → List ExtractedText
  perm : ∀ rows, (order rows).Perm rows

/-- `readAllCapped` of what is stored under a key, as text -/
def fetch (objects : JsString → Option Buffer) (objectKey : JsString) (limitBytes : ℕ) :
    Option JsString :=
  (objects objectKey).bind fun bytes =>
    if bytes.length ≤ limitBytes then fromUtf8 bytes else none

/-- The document `processSearchIndex` makes of an item. -/
def indexed (order : RowOrder) (tenantId : JsString) (now : ℤ) (s : State) : EvidenceSearchDoc :=
  itemDoc (fetch s.objects) tenantId now
    { s.item with extractedTexts := order.order s.item.extractedTexts }

/-- Where texts of a kind go. -/
def fieldOf (itemKind : EvidenceKind) (texts : Texts) : TextKind → Option JsString
  | .bodyPlain => texts.body
  | .bodyHtmlToText => texts.bodyHtml
  | .fileText => if itemKind = .attachment then texts.attachment else texts.file
  | .ocrText => texts.ocr
  | .mediaMetadata => none

/-- What a document has of texts of a kind. -/
def textOf (itemKind : EvidenceKind) (doc : EvidenceSearchDoc) (kind : TextKind) : JsString :=
  (doc.text.bind fun texts => fieldOf itemKind texts kind).getD []

/-! ## What is asked for -/

/-- The document has the whole text; white space at the ends of the text of a file is not counted,
and pages may be there one by one. -/
def Whole (itemKind : EvidenceKind) (doc : EvidenceSearchDoc) : Found → Prop
  | .bodyPlain text => textOf itemKind doc .bodyPlain = text
  | .bodyHtmlToText text => textOf itemKind doc .bodyHtmlToText = text
  | .fileText text => trim text = [] ∨ textOf itemKind doc .fileText = trim text
  | .ocrPages texts => textOf itemKind doc .ocrText = trim (joinWith (js "\n\n") texts) ∨
      (doc.ocrPages.getD []).map (·.text) = texts

/-- The message says that text was cut or left out. -/
def SaysLeftOut (message : JsString) : Prop :=
  message = textTooLarge ∨ ∃ stoppedAtPage, message = truncationNote stoppedAtPage

/-- **No text is missing silently**: what the stages have found is whole in the document, and so are
the lines of all records of an audit batch, or the item says otherwise. -/
def NothingSilent (s : State) (doc : EvidenceSearchDoc) : Prop :=
  ((∀ found ∈ s.found, Whole s.item.kind doc found) ∧
    (s.item.kind = .auditBatch →
      textOf s.item.kind doc .fileText = auditText s.item.auditRecords)) ∨
    SaysLeftOut s.processingDetail ∨ ∃ message ∈ s.exceptions, SaysLeftOut message

/-! ## The condition -/

/-- A body is no longer than the cap and has no lone surrogate. -/
def BodyFits (body : JsString) : Prop :=
  body.length ≤ maxBodyChars ∧ toWellFormed body = body

/-- The bodies fit, also together. -/
structure EmailFits (plain html : JsString) : Prop where
  bodyPlain : BodyFits plain
  bodyHtml : BodyFits html
  total : (toUtf8 plain).length + (toUtf8 html).length ≤ maxTextTotalBytes

/-- What is stored of a file, and of its pages if it has any. -/
def storedText (kept ocr : JsString) : TextKind → JsString
  | .fileText => trim kept
  | .ocrText => ocr
  | _ => []

/-- The text of a kind is no longer than what is left of the total by those before it that fit. -/
def Fits (order : RowOrder) (rows : List ExtractedText) (text : TextKind → JsString)
    (row : ExtractedText) : Prop :=
  row ∈ taken (fun row => (toUtf8 (text row.kind)).length) maxTextTotalBytes (order.order rows)

instance (order : RowOrder) (rows : List ExtractedText) (text : TextKind → JsString)
    (row : ExtractedText) : Decidable (Fits order rows text row) :=
  inferInstanceAs (Decidable (_ ∈ _))

section Condition

variable (deps : Deps) (tenantId : JsString) (version : ℕ) (order : RowOrder)

/-- Nothing but white space is cut off the text of a file, it has no lone surrogate, and it fits. -/
def TextFits (rows : List ExtractedText) (id found kept ocr : JsString) : Prop :=
  trim found = [] ∨ toWellFormed (trim kept) = trim found ∧
    Fits order rows (storedText kept ocr) (textRow tenantId version id .fileText)

/-- So does the text of a file with its pages; no condition, if it has more pages than are read. -/
def FileFits (id found kept : JsString) : Reading → Prop
  | .pages _ (some _) => True
  | .pages pages none =>
    let rows := [textRow tenantId version id .fileText, textRow tenantId version id .ocrText]
    TextFits tenantId version order rows id found kept (fullText pages) ∧
      (pages.length ≤ maxOcrPagesIndexed ∨ toWellFormed (fullText pages) = fullText pages ∧
        Fits order rows (storedText kept (fullText pages)) (textRow tenantId version id .ocrText))
  | _ => TextFits tenantId version order [textRow tenantId version id .fileText] id found kept []

/-- What the tools answer fits into the index. -/
def AllFits (a : Acquired) : Prop :=
  match a.item.kind with
  | .email => ∀ raw ∈ a.input, raw.length ≤ maxInputBytes → ∀ email, deps.parse raw = .ok email →
      EmailFits email.bodyPlain (htmlText deps email)
  | .attachment | .file => ∀ input ∈ a.input, ∀ found kept,
      extraction deps a.item.mimeType a.item.name input = .text found kept →
        FileFits tenantId version order a.item.id found kept
          (reading deps a.item.mimeType a.item.extension (trim kept).length input)
  | .auditBatch => a.item.auditRecords.length ≤ maxAuditRecordsIndexed
  | _ => True

end Condition

/-! ## Bytes -/

theorem scalar_unit_lt (c : CodeUnit) : (CodePoint.unit c).scalar < 0x10000 := by
  rw [scalar_unit]
  split
  · omega
  · exact c.isLt

theorem le_scalar_pair {hi lo : CodeUnit} (hhi : IsHighSurrogate hi) (hlo : IsLowSurrogate lo) :
    0x10000 ≤ (CodePoint.pair hi lo hhi hlo).scalar := by
  rw [scalar_pair hhi hlo]
  omega

/-- `toWellFormed` puts one unit for another. -/
theorem length_toWellFormed (s : JsString) : (toWellFormed s).length = s.length := by
  have hunit : ∀ c, (scalarUnits (CodePoint.unit c).scalar).length = 1 := by
    intro c
    rw [scalarUnits, if_pos (scalar_unit_lt c)]
    rfl
  rw [toWellFormed]
  fun_induction codePoints s with
  | case1 => rfl
  | case2 c =>
    have hone : scalars [c] = [(CodePoint.unit c).scalar] := rfl
    rw [hone, List.flatMap_singleton, hunit]
    rfl
  | case3 c d rest hpair ih =>
    rw [scalars_cons_cons, dif_pos hpair, List.flatMap_cons, List.length_append, ih, scalarUnits,
      if_neg (not_lt.mpr (le_scalar_pair hpair.1 hpair.2)), List.length_cons, List.length_cons,
      List.length_cons, List.length_cons, List.length_nil]
    omega
  | case4 c d rest hpair ih =>
    rw [scalars_cons_cons, dif_neg hpair, List.flatMap_cons, List.length_append, hunit, ih,
      List.length_cons, List.length_cons, List.length_cons]
    omega

/-- The bytes of a unit that stands alone. -/
theorem length_utf8Bytes_unit (c : CodeUnit) : (utf8Bytes (CodePoint.unit c).scalar).length =
    if c ≤ 0x7F then 1 else if c ≤ 0x7FF then 2 else 3 := by
  have hone : c ≤ 0x7F ↔ c.val ≤ 0x7F := Iff.rfl
  have htwo : c ≤ 0x7FF ↔ c.val ≤ 0x7FF := Iff.rfl
  simp only [scalar_unit, hone, htwo]
  by_cases hlone : IsHighSurrogate c ∨ IsLowSurrogate c
  · rw [if_pos hlone]
    rw [isHighSurrogate_iff, isLowSurrogate_iff] at hlone
    rw [if_neg (by omega), if_neg (by omega)]
    rfl
  · have hlt := c.isLt
    rw [if_neg hlone, utf8Bytes]
    split_ifs <;> first | rfl | omega

theorem byteLength_eq (s : JsString) : byteLength s = (toUtf8 s).length := by
  rw [toUtf8]
  fun_induction codePoints s with
  | case1 => rfl
  | case2 c =>
    have hone : scalars [c] = [(CodePoint.unit c).scalar] := rfl
    rw [hone, List.flatMap_singleton, length_utf8Bytes_unit]
    rfl
  | case3 c d rest hpair ih =>
    have hle := le_scalar_pair hpair.1 hpair.2
    have hfour : (utf8Bytes (CodePoint.pair c d hpair.1 hpair.2).scalar).length = 4 := by
      rw [utf8Bytes, if_neg (by omega), if_neg (by omega), if_neg (by omega)]
      rfl
    rw [scalars_cons_cons, dif_pos hpair, List.flatMap_cons, List.length_append, ← ih, hfour,
      byteLength, if_pos ⟨hpair.1.1, hpair.1.2, hpair.2.1, hpair.2.2⟩]
  | case4 c d rest hpair ih =>
    rw [scalars_cons_cons, dif_neg hpair, List.flatMap_cons, List.length_append, ← ih,
      length_utf8Bytes_unit, byteLength,
      if_neg fun h => hpair ⟨⟨h.1, h.2.1⟩, h.2.2.1, h.2.2.2⟩]

theorem eq_nil_of_byteLength {s : JsString} (h : byteLength s = 0) : s = [] := by
  rcases s with _ | ⟨c, _ | ⟨d, rest⟩⟩
  · rfl
  · rw [byteLength] at h
    split_ifs at h
  · rw [byteLength] at h
    split_ifs at h <;> omega

theorem toUtf8_toWellFormed (s : JsString) : toUtf8 (toWellFormed s) = toUtf8 s := by
  rw [toUtf8, toUtf8, scalars_toWellFormed]

theorem fromUtf8_toUtf8 (s : JsString) : fromUtf8 (toUtf8 s) = some (toWellFormed s) :=
  fromUtf8_flatMap fun _ => isScalar_of_mem_scalars

/-! ## Loading -/

section Loading

variable {fetch : JsString → ℕ → Option JsString} {itemKind : EvidenceKind}
  {content : ExtractedText → JsString} {rows : List ExtractedText} {budget : ℕ} {texts : Texts}
  {kind : TextKind}

theorem fieldOf_put_self {row : ExtractedText} (h : row.kind ≠ .mediaMetadata) (text : JsString) :
    fieldOf itemKind (texts.put itemKind text row.kind) row.kind = some text := by
  rcases hkind : row.kind <;> simp_all [fieldOf, Texts.put]

theorem fieldOf_put_of_ne {kind' : TextKind} (h : kind ≠ kind') (text : JsString) :
    fieldOf itemKind (texts.put itemKind text kind') kind = fieldOf itemKind texts kind := by
  cases kind <;> cases kind' <;> simp_all [fieldOf, Texts.put] <;> split <;> rfl

/-- **What is loaded** of texts of different kinds are those that fit, one after the other. -/
theorem getD_fieldOf_loadTexts
    (hfetch : ∀ row ∈ rows, ∀ limit, fetch row.objectKey limit =
      if byteLength (content row) ≤ limit then some (content row) else none)
    (hkinds : (rows.map (·.kind)).Nodup) (hmedia : ∀ row ∈ rows, row.kind ≠ .mediaMetadata)
    (hfresh : ∀ row ∈ rows, (fieldOf itemKind texts row.kind).getD [] = []) :
    (fieldOf itemKind (loadTexts fetch itemKind budget rows texts) kind).getD [] =
      (((taken (fun row => byteLength (content row)) budget rows).find?
        fun row => row.kind = kind).map content).getD ((fieldOf itemKind texts kind).getD []) := by
  induction rows generalizing budget texts with
  | nil => rfl
  | cons row rows ih =>
    obtain ⟨hnew, hkinds⟩ := List.nodup_cons.mp hkinds
    obtain ⟨hrow, hfetch⟩ := List.forall_mem_cons.mp hfetch
    obtain ⟨hplain, hmedia⟩ := List.forall_mem_cons.mp hmedia
    rw [loadTexts]
    by_cases hbudget : budget = 0
    · -- what is taken of no budget is empty, and so is what was there
      rw [if_pos hbudget, hbudget]
      cases hfind : (taken (fun row => byteLength (content row)) 0 (row :: rows)).find?
          fun row => row.kind = kind with
      | none => rfl
      | some other =>
        have hmem := List.mem_of_find?_eq_some hfind
        have hzero := Budget.size_eq_zero_of_mem_taken hmem
        have hkind : other.kind = kind := by simpa using List.find?_some hfind
        have hold := hfresh other (Budget.taken_sublist.subset hmem)
        rw [hkind] at hold
        rw [Option.map_some, Option.getD_some, hold, eq_nil_of_byteLength hzero]
    · rw [if_neg hbudget, hrow]
      by_cases hle : byteLength (content row) ≤ budget
      · have hput : ∀ other ∈ rows, fieldOf itemKind
            (texts.put itemKind (content row) row.kind) other.kind =
              fieldOf itemKind texts other.kind := fun other hother =>
          fieldOf_put_of_ne (fun heq => hnew (List.mem_map.mpr ⟨other, hother, heq⟩)) _
        have hrest := @ih (budget - byteLength (content row))
          (texts.put itemKind (content row) row.kind) hfetch hkinds hmedia fun other hother => by
            rw [hput other hother]
            exact hfresh other (.tail _ hother)
        have htaken : taken (fun row => byteLength (content row)) budget (row :: rows) =
            row :: taken (fun row => byteLength (content row))
              (budget - byteLength (content row)) rows := Budget.taken_cons_of_le hle
        rw [if_pos hle, htaken, List.find?_cons]
        by_cases hkind : row.kind = kind
        · have hnone : (taken (fun row => byteLength (content row))
              (budget - byteLength (content row)) rows).find? (fun row => row.kind = kind) =
                none := by
            rw [List.find?_eq_none]
            intro other hother heq
            have hsame : other.kind = kind := of_decide_eq_true heq
            exact hnew (List.mem_map.mpr
              ⟨other, Budget.taken_sublist.subset hother, hsame.trans hkind.symm⟩)
          rw [hnone, Option.map_none, Option.getD_none, ← hkind, fieldOf_put_self hplain] at hrest
          rw [decide_eq_true hkind, ← hkind]
          exact hrest
        · rw [fieldOf_put_of_ne (Ne.symm hkind)] at hrest
          rw [decide_eq_false hkind]
          exact hrest
      · have htaken : taken (fun row => byteLength (content row)) budget (row :: rows) =
            taken (fun row => byteLength (content row)) budget rows :=
          Budget.taken_cons_of_lt (not_le.mp hle)
        rw [if_neg hle, htaken]
        exact ih hfetch hkinds hmedia fun other hother => hfresh other (.tail _ hother)

end Loading

/-! ## What is stored -/

section Stored

variable {tenantId id : JsString} {version : ℕ}

/-- A key ends in the name of the file. -/
theorem derivativeKey_ends (derivativeType filename : JsString) : ∃ front,
    derivativeKey tenantId version id derivativeType filename =
      front ++ unitOf '/' :: filename := by
  refine ⟨joinWith (js "/")
    [js "tenants", tenantId, js "derivatives", id, derivativeType, decimal version], ?_⟩
  simp [derivativeKey, Evidence.Keys.tenantKey, joinWith, PrefixCode.join, js, unitOf]

/-- The name of the file of a text. -/
def filenameOf : TextKind → JsString
  | .bodyPlain => js "body.txt"
  | .bodyHtmlToText => js "body-html.txt"
  | .ocrText => js "ocr.txt"
  | _ => js "file-text.txt"

theorem textKey_ends (kind : TextKind) :
    ∃ front, textKey tenantId version id kind = front ++ unitOf '/' :: filenameOf kind := by
  cases kind <;> exact derivativeKey_ends _ _

/-- Every kind of text has a key of its own. -/
theorem textKey_injective {kind kind' : TextKind} (hkind : kind ≠ .mediaMetadata)
    (hkind' : kind' ≠ .mediaMetadata)
    (h : textKey tenantId version id kind = textKey tenantId version id kind') : kind = kind' := by
  have hname : ∀ kind, unitOf '/' ∉ filenameOf kind := by
    intro kind
    cases kind <;> decide
  obtain ⟨front, hfront⟩ := @textKey_ends tenantId id version kind
  obtain ⟨front', hfront'⟩ := @textKey_ends tenantId id version kind'
  rw [hfront, hfront'] at h
  have hsame := (PrefixCode.last_inj (hname kind) (hname kind') h).2
  revert hsame
  cases kind <;> cases kind' <;> first | exact fun _ => rfl | contradiction | decide

/-- The rows of an item are those of the texts of some kinds, which are stored. -/
structure Stores (tenantId : JsString) (version : ℕ) (s : State) (kinds : List TextKind)
    (text : TextKind → JsString) : Prop where
  rows : s.item.extractedTexts = kinds.map (textRow tenantId version s.item.id)
  nodup : kinds.Nodup
  known : .mediaMetadata ∉ kinds
  objects : ∀ kind ∈ kinds,
    s.objects (textKey tenantId version s.item.id kind) = some (toUtf8 (text kind))

variable {s : State} {kinds : List TextKind} {text : TextKind → JsString} {kind : TextKind}

theorem Stores.storeText (h : Stores tenantId version s kinds text) (hnew : kind ∉ kinds)
    (hkind : kind ≠ .mediaMetadata) (stored : JsString) :
    Stores tenantId version (s.storeText tenantId version kind stored) (kinds ++ [kind])
      (Function.update text kind stored) := by
  have hrow : textRow tenantId version s.item.id kind ∉ s.item.extractedTexts := by
    rw [h.rows]
    intro hmem
    obtain ⟨other, hother, heq⟩ := List.mem_map.mp hmem
    have hsame : other = kind := congrArg ExtractedText.kind heq
    exact hnew (hsame ▸ hother)
  refine
    { rows := ?_
      nodup := ?_
      known := ?_
      objects := ?_ }
  · rw [State.storeText, List.map_append, ← h.rows]
    exact if_neg hrow
  · exact h.nodup.append (List.nodup_singleton kind) fun _ hold hone =>
      hnew (List.mem_singleton.mp hone ▸ hold)
  · intro hmem
    rcases List.mem_append.mp hmem with hold | hone
    · exact h.known hold
    · exact hkind (List.mem_singleton.mp hone).symm
  · intro other hother
    change Function.update s.objects (textKey tenantId version s.item.id kind) _
      (textKey tenantId version s.item.id other) = _
    rcases List.mem_append.mp hother with hold | hone
    · have hne : other ≠ kind := fun heq => hnew (heq ▸ hold)
      have hknown : other ≠ .mediaMetadata := fun heq => h.known (heq ▸ hold)
      rw [Function.update_of_ne fun heq => hne (textKey_injective hknown hkind heq),
        Function.update_of_ne hne]
      exact h.objects other hold
    · obtain rfl := List.mem_singleton.mp hone
      rw [Function.update_self, Function.update_self]

/-- A document without texts has no less than its texts. -/
theorem textOf_buildSearchDoc (itemKind : EvidenceKind) (now : ℤ) (input : SearchDocInput) :
    textOf itemKind (buildSearchDoc now input) kind =
      (fieldOf itemKind input.texts kind).getD [] := by
  rw [textOf, buildSearchDoc]
  dsimp only
  by_cases htexts : input.texts.nonempty
  · rw [if_pos htexts]
    rfl
  · rw [if_neg htexts, Option.bind_none, Option.getD_none]
    have hnone : ∀ v ∈ [input.texts.body, input.texts.bodyHtml, input.texts.attachment,
        input.texts.file, input.texts.ocr], v.getD [] = [] := by
      intro v hv
      by_contra hsome
      refine htexts (List.any_eq_true.mpr ⟨v, hv, decide_eq_true ⟨?_, ?_⟩⟩)
      · rintro rfl
        exact hsome rfl
      · rintro rfl
        exact hsome rfl
    cases kind with
    | bodyPlain | bodyHtmlToText | ocrText =>
      rw [fieldOf]
      exact (hnone _ (by simp)).symm
    | fileText =>
      rw [fieldOf]
      split <;> exact (hnone _ (by simp)).symm
    | mediaMetadata => rfl

theorem Stores.kind_of_mem (h : Stores tenantId version s kinds text) {row : ExtractedText}
    (hrow : row ∈ s.item.extractedTexts) :
    row.kind ∈ kinds ∧ row = textRow tenantId version s.item.id row.kind := by
  rw [h.rows] at hrow
  obtain ⟨kind, hkind, rfl⟩ := List.mem_map.mp hrow
  exact ⟨hkind, rfl⟩

/-- What is stored is read as the texts, if the limit allows for them. -/
theorem Stores.fetch (h : Stores tenantId version s kinds text) {row : ExtractedText}
    (hrow : row ∈ s.item.extractedTexts) (limit : ℕ) :
    WholeTexts.fetch s.objects row.objectKey limit =
      if byteLength (toWellFormed (text row.kind)) ≤ limit then some (toWellFormed (text row.kind))
      else none := by
  obtain ⟨hkind, heq⟩ := h.kind_of_mem hrow
  have hkey : row.objectKey = textKey tenantId version s.item.id row.kind :=
    congrArg ExtractedText.objectKey heq
  rw [WholeTexts.fetch, hkey, h.objects _ hkind, byteLength_eq, toUtf8_toWellFormed]
  dsimp only [Option.bind_some]
  rw [fromUtf8_toUtf8]

/-- **What the document has** of texts of a kind: the text, if it is stored and fits. -/
theorem Stores.textOf (h : Stores tenantId version s kinds text)
    (hbatch : s.item.kind ≠ .auditBatch) (hkind : kind ≠ .mediaMetadata) (order : RowOrder) (now : ℤ) :
    WholeTexts.textOf s.item.kind (indexed order tenantId now s) kind =
      if kind ∈ kinds ∧ Fits order s.item.extractedTexts text
          (textRow tenantId version s.item.id kind) then toWellFormed (text kind) else [] := by
  have hperm := order.perm s.item.extractedTexts
  have hkinds : s.item.extractedTexts.map (·.kind) = kinds := by
    rw [h.rows, List.map_map]
    exact List.map_id kinds
  have hloaded := @getD_fieldOf_loadTexts (WholeTexts.fetch s.objects) s.item.kind
    (fun row => toWellFormed (text row.kind)) (order.order s.item.extractedTexts)
    maxTextTotalBytes ⟨none, none, none, none, none⟩ kind
    (fun row hrow limit => h.fetch (hperm.mem_iff.mp hrow) limit)
    ((hperm.map _).nodup_iff.mpr (hkinds ▸ h.nodup))
    (fun row hrow heq => h.known (heq ▸ (h.kind_of_mem (hperm.mem_iff.mp hrow)).1))
    (fun row _ => by cases row.kind <;> simp [fieldOf])
  simp only [byteLength_eq, toUtf8_toWellFormed] at hloaded
  have htexts : (searchDocInput (WholeTexts.fetch s.objects) tenantId
      { s.item with extractedTexts := order.order s.item.extractedTexts }).texts =
        loadTexts (WholeTexts.fetch s.objects) s.item.kind maxTextTotalBytes
          (order.order s.item.extractedTexts) ⟨none, none, none, none, none⟩ := by
    rw [searchDocInput]
    exact if_neg fun hbatch' => hbatch hbatch'.1
  rw [indexed, itemDoc, textOf_buildSearchDoc, htexts, hloaded]
  split_ifs with hfits
  · cases hfind : (taken (fun row => (toUtf8 (text row.kind)).length) maxTextTotalBytes
        (order.order s.item.extractedTexts)).find? fun row => row.kind = kind with
    | none => exact absurd (decide_eq_true rfl) (List.find?_eq_none.mp hfind _ hfits.2)
    | some row =>
      have hrow : row.kind = kind := by simpa using List.find?_some hfind
      rw [Option.map_some, Option.getD_some, hrow]
  · have hnone : (taken (fun row => (toUtf8 (text row.kind)).length) maxTextTotalBytes
        (order.order s.item.extractedTexts)).find? (fun row => row.kind = kind) = none := by
      rw [List.find?_eq_none]
      intro row hrow heq
      have hsame : row.kind = kind := of_decide_eq_true heq
      obtain ⟨hmem, hrow'⟩ :=
        h.kind_of_mem (hperm.mem_iff.mp (Budget.taken_sublist.subset hrow))
      refine hfits ⟨hsame ▸ hmem, ?_⟩
      rw [← hsame, ← hrow']
      exact hrow
    rw [hnone, Option.map_none, Option.getD_none]
    cases kind <;> simp [fieldOf]

end Stored

/-! ## Emails -/

section Emails

variable {tenantId : JsString} {version : ℕ} {s : State}

/-- Nothing is stored of an item that has no texts. -/
theorem stores_nil (h : s.item.extractedTexts = []) :
    Stores tenantId version s [] fun _ => [] where
  rows := h
  nodup := List.nodup_nil
  known := List.not_mem_nil
  objects _ h := nomatch h

theorem maxBodyChars_pos : 0 < maxBodyChars := by decide

/-- Where a body is stored as it is left by the cap, it is whole exactly if it fits. -/
theorem body_whole_iff {body : JsString} {p : Prop} [Decidable p] :
    (if body.take maxBodyChars ≠ [] ∧ p then toWellFormed (body.take maxBodyChars) else []) = body ↔
      BodyFits body ∧ (body ≠ [] → p) := by
  by_cases hnil : body = []
  · rw [hnil]
    exact iff_of_true (if_neg fun h => h.1 rfl) ⟨⟨Nat.zero_le _, rfl⟩, fun h => absurd rfl h⟩
  have hcut : body.take maxBodyChars ≠ [] := fun h =>
    (List.take_eq_nil_iff.mp h).elim maxBodyChars_pos.ne' hnil
  refine ⟨fun h => ?_, fun ⟨hfits, hp⟩ => ?_⟩
  · split_ifs at h with hread
    · -- the cut text is as long as the text, and so it is the text
      have hlength := congrArg List.length h
      rw [length_toWellFormed, List.length_take] at hlength
      have hle : body.length ≤ maxBodyChars := by omega
      rw [List.take_of_length_le hle] at h
      exact ⟨⟨hle, h⟩, fun _ => hread.2⟩
    · exact absurd h.symm hnil
  · rw [if_pos ⟨hcut, hp hnil⟩, List.take_of_length_le hfits.1]
    exact hfits.2

theorem Stores.storeBody {kinds : List TextKind} {text : TextKind → JsString} {kind : TextKind}
    (h : Stores tenantId version s kinds text) (hnew : kind ∉ kinds) (hkind : kind ≠ .mediaMetadata)
    (body : JsString) :
    Stores tenantId version (storeBody tenantId version s kind body)
      (if body = [] then kinds else kinds ++ [kind]) (Function.update text kind body) := by
  rw [Processing.TextStages.storeBody]
  split_ifs with hbody
  · refine { h with objects := fun other hother => ?_ }
    have hne : other ≠ kind := fun heq => hnew (heq ▸ hother)
    rw [Function.update_of_ne hne]
    exact h.objects other hother
  · exact h.storeText hnew hkind body

theorem storeBody_kind (kind : TextKind) (body : JsString) :
    (storeBody tenantId version s kind body).item.kind = s.item.kind ∧
      (storeBody tenantId version s kind body).exceptions = s.exceptions := by
  rw [storeBody]
  split <;> exact ⟨rfl, rfl⟩

/-- The kinds of the bodies that are stored. -/
def bodyKinds (plain html : JsString) : List TextKind :=
  (if plain = [] then [] else [.bodyPlain]) ++ if html = [] then [] else [.bodyHtmlToText]

/-- The bodies of an email. -/
def bodies (plain html : JsString) : TextKind → JsString
  | .bodyPlain => plain
  | .bodyHtmlToText => html
  | _ => []

theorem stores_bodies (hs : s.item.extractedTexts = []) (plain html : JsString) :
    Stores tenantId version (storeBody tenantId version
      (storeBody tenantId version s .bodyPlain plain) .bodyHtmlToText html)
      (bodyKinds plain html) (bodies plain html) := by
  have hfirst : Stores tenantId version (storeBody tenantId version s .bodyPlain plain)
      (if plain = [] then [] else [.bodyPlain])
      (Function.update (fun _ => []) .bodyPlain plain) :=
    (stores_nil hs).storeBody List.not_mem_nil (by decide) plain
  have hnew : TextKind.bodyHtmlToText ∉ if plain = [] then [] else [TextKind.bodyPlain] := by
    split <;> decide
  have hsecond := hfirst.storeBody hnew (by decide) html
  have htext : Function.update (Function.update (fun _ => []) .bodyPlain plain) .bodyHtmlToText
      html = bodies plain html := by
    funext kind
    cases kind <;> rfl
  have hkinds : (if html = [] then if plain = [] then [] else [TextKind.bodyPlain]
      else (if plain = [] then [] else [TextKind.bodyPlain]) ++ [TextKind.bodyHtmlToText]) =
        bodyKinds plain html := by
    rw [bodyKinds]
    split_ifs <;> rfl
  rw [htext, hkinds] at hsecond
  exact hsecond

theorem mem_bodyKinds {plain html : JsString} :
    (TextKind.bodyPlain ∈ bodyKinds plain html ↔ plain ≠ []) ∧
      (TextKind.bodyHtmlToText ∈ bodyKinds plain html ↔ html ≠ []) := by
  rw [bodyKinds]
  split_ifs with hp hh hh <;> simp [hp, hh]

/-- The bodies that are stored fit, in any order, exactly if they fit together. -/
theorem bodies_fit_iff {rows : List ExtractedText} {id plain html : JsString} (order : RowOrder)
    (hrows : rows = (bodyKinds plain html).map (textRow tenantId version id)) :
    ((plain ≠ [] → Fits order rows (bodies plain html) (textRow tenantId version id .bodyPlain)) ∧
      (html ≠ [] →
        Fits order rows (bodies plain html) (textRow tenantId version id .bodyHtmlToText))) ↔
      (toUtf8 plain).length + (toUtf8 html).length ≤ maxTextTotalBytes := by
  have hnil : toUtf8 [] = [] := rfl
  have hall : (∀ row ∈ rows, Fits order rows (bodies plain html) row) ↔
      (rows.map fun row => (toUtf8 (bodies plain html row.kind)).length).sum ≤
        maxTextTotalBytes := by
    refine Budget.subset_taken_iff ?_ (order.perm rows)
    have hkinds : (bodyKinds plain html).Nodup := by
      rw [bodyKinds]
      split_ifs <;> decide
    rw [hrows]
    exact hkinds.map fun _ _ heq => congrArg ExtractedText.kind heq
  have hsum : (rows.map fun row => (toUtf8 (bodies plain html row.kind)).length).sum =
      (toUtf8 plain).length + (toUtf8 html).length := by
    rw [hrows, bodyKinds]
    split_ifs with hp hh hh <;> simp [hp, hh, hnil, textRow, bodies]
  rw [← hsum, ← hall]
  refine ⟨fun h row hrow => ?_, fun h => ⟨fun hp => h _ ?_, fun hh => h _ ?_⟩⟩
  · rw [hrows] at hrow
    obtain ⟨kind, hkind, rfl⟩ := List.mem_map.mp hrow
    rw [bodyKinds] at hkind
    split_ifs at hkind with hp hh hh
    · cases hkind
    · obtain rfl := List.mem_singleton.mp hkind
      exact h.2 hh
    · obtain rfl := List.mem_singleton.mp hkind
      exact h.1 hp
    · rcases List.mem_cons.mp hkind with rfl | hkind
      · exact h.1 hp
      · obtain rfl := List.mem_singleton.mp hkind
        exact h.2 hh
  · rw [hrows]
    exact List.mem_map_of_mem (mem_bodyKinds.1.mpr hp)
  · rw [hrows]
    exact List.mem_map_of_mem (mem_bodyKinds.2.mpr hh)

/-- **An email** has its bodies in the document exactly if they fit. -/
theorem email_whole_iff {plain html : JsString}
    (hstores : Stores tenantId version s
      (bodyKinds (plain.take maxBodyChars) (html.take maxBodyChars))
      (bodies (plain.take maxBodyChars) (html.take maxBodyChars)))
    (hkind : s.item.kind = .email) (order : RowOrder) (now : ℤ) :
    (textOf .email (indexed order tenantId now s) .bodyPlain = plain ∧
      textOf .email (indexed order tenantId now s) .bodyHtmlToText = html) ↔
        EmailFits plain html := by
  have hread := fun (kind : TextKind) (hknown : kind ≠ .mediaMetadata) =>
    hstores.textOf (by rw [hkind]; decide) hknown order now
  simp only [hkind] at hread
  rw [hread .bodyPlain (by decide), hread .bodyHtmlToText (by decide)]
  simp only [mem_bodyKinds.1, mem_bodyKinds.2]
  simp only [bodies]
  rw [body_whole_iff, body_whole_iff]
  have htotal := bodies_fit_iff order hstores.rows
  refine ⟨?_, ?_⟩
  · rintro ⟨⟨hplain, hreadPlain⟩, hhtml, hreadHtml⟩
    refine ⟨hplain, hhtml, ?_⟩
    have hsum := htotal.mp
      ⟨fun hne => hreadPlain fun h => hne (by rw [h, List.take_nil]),
        fun hne => hreadHtml fun h => hne (by rw [h, List.take_nil])⟩
    rw [List.take_of_length_le hplain.1, List.take_of_length_le hhtml.1] at hsum
    exact hsum
  · rintro ⟨hplain, hhtml, hsum⟩
    rw [← List.take_of_length_le hplain.1, ← List.take_of_length_le hhtml.1] at hsum
    obtain ⟨hreadPlain, hreadHtml⟩ := htotal.mpr hsum
    refine ⟨⟨hplain, fun hne => hreadPlain ?_⟩, hhtml, fun hne => hreadHtml ?_⟩
    · rwa [List.take_of_length_le hplain.1]
    · rwa [List.take_of_length_le hhtml.1]

end Emails

/-! ## Audit batches -/

theorem joinWith_take_iff {sep : JsString} (hsep : sep ≠ []) {n : ℕ} (hn : 0 < n)
    (lines : List JsString) :
    joinWith sep (lines.take n) = joinWith sep lines ↔ lines.length ≤ n := by
  obtain ⟨m, rfl⟩ : ∃ m, n = m + 1 := ⟨n - 1, by omega⟩
  rcases lines with _ | ⟨line, lines⟩
  · exact iff_of_true rfl (Nat.zero_le _)
  rw [joinWith, joinWith, List.take_succ_cons, PrefixCode.join_cons, PrefixCode.join_cons,
    List.append_cancel_left_eq, List.length_cons, Nat.add_le_add_iff_right]
  refine ⟨fun h => ?_, fun h => by rw [List.take_of_length_le h]⟩
  -- every line that is not taken would bring its separator
  have hrest : ((lines.drop m).flatMap fun y => sep ++ y) = [] := by
    have hsplit := congrArg (List.flatMap fun y => sep ++ y) (List.take_append_drop m lines)
    rw [List.flatMap_append, ← h] at hsplit
    exact List.append_right_eq_self.mp hsplit
  rw [← List.drop_eq_nil_iff]
  rcases hdrop : lines.drop m with _ | ⟨y, more⟩
  · rfl
  · rw [hdrop, List.flatMap_cons] at hrest
    exact absurd (List.append_eq_nil_iff.mp (List.append_eq_nil_iff.mp hrest).1).1 hsep

/-- **An audit batch** has all its lines in the document exactly if it has no more records than are
taken. -/
theorem batch_whole_iff {s : State} (hs : s.item.extractedTexts = [])
    (hkind : s.item.kind = .auditBatch) (order : RowOrder) (tenantId : JsString) (now : ℤ) :
    textOf .auditBatch (indexed order tenantId now s) .fileText = auditText s.item.auditRecords ↔
      s.item.auditRecords.length ≤ maxAuditRecordsIndexed := by
  have hrows : order.order s.item.extractedTexts = [] := by
    rw [hs]
    exact (order.perm []).eq_nil
  have htext : textOf .auditBatch (indexed order tenantId now s) .fileText =
      auditText (s.item.auditRecords.take maxAuditRecordsIndexed) := by
    rw [indexed, itemDoc, textOf_buildSearchDoc, searchDocInput, hrows]
    dsimp only
    by_cases hnil : auditText (s.item.auditRecords.take maxAuditRecordsIndexed) = []
    · rw [if_neg fun h => h.2 hnil, hnil]
      rfl
    · rw [if_pos ⟨hkind, hnil⟩]
      rfl
  rw [htext, auditText, auditText, List.map_take, joinWith_take_iff (by decide) (by decide),
    List.length_map]

/-! ## Files -/

section Files

variable {deps : Deps} {tenantId : JsString} {version : ℕ} {s : State}

theorem not_saysLeftOut {message : JsString} (hlarge : message.take 10 ≠ js "extracted ")
    (hnote : message.take 10 ≠ js "ocr read t") : ¬ SaysLeftOut message := by
  rintro (rfl | ⟨stoppedAtPage, rfl⟩)
  · exact hlarge (by decide)
  · refine hnote ?_
    rw [truncationNote, List.append_assoc, List.append_assoc,
      List.take_append_of_le_length (by decide)]
    decide

/-- OCR that fails says so, but not that text was cut. -/
theorem not_saysLeftOut_of_reading {mimeType extension : JsString} {chars : ℕ} {input : Buffer}
    {message : JsString} (h : reading deps mimeType extension chars input = .failed message) :
    ¬ SaysLeftOut message := by
  rw [reading] at h
  split_ifs at h with hrun hversion hpdf hlarge
  · rw [← Reading.failed.inj h]
    exact not_saysLeftOut (by decide) (by decide)
  · rw [← Reading.failed.inj h]
    exact not_saysLeftOut (by decide) (by decide)
  · split at h
    · rw [← Reading.failed.inj h]
      have htake : ∀ reason, (js "ocr failed: " ++ reason).take 10 = js "ocr failed" := by
        intro reason
        rw [List.take_append_of_le_length (by decide)]
        decide
      refine not_saysLeftOut ?_ ?_
      · rw [htake]
        decide
      · rw [htake]
        decide
    · cases h

/-- The text of a file is stored. -/
theorem stores_extracted (hs : s.item.extractedTexts = []) (kept : JsString) :
    Stores tenantId version (persistExtractedText deps tenantId version s kept).1 [.fileText]
      (storedText kept []) := by
  have hstored : Stores tenantId version (s.storeText tenantId version .fileText (trim kept))
      [.fileText] (Function.update (fun _ => []) .fileText (trim kept)) :=
    (stores_nil hs).storeText List.not_mem_nil (by decide) (trim kept)
  have htext : Function.update (fun _ => []) .fileText (trim kept) = storedText kept [] := by
    funext kind
    cases kind <;> rfl
  rw [htext] at hstored
  exact ⟨hstored.rows, hstored.nodup, hstored.known, hstored.objects⟩

/-- So is the text of its pages. -/
theorem stores_pages {kept : JsString}
    (h : Stores tenantId version s [.fileText] (storedText kept [])) (pages : List OcrPageResult)
    (stoppedAtPage : Option ℕ) :
    Stores tenantId version (storePages tenantId version s pages stoppedAtPage)
      [.fileText, .ocrText] (storedText kept (fullText pages)) := by
  have hstored : Stores tenantId version (s.storeText tenantId version .ocrText (fullText pages))
      [.fileText, .ocrText] (Function.update (storedText kept []) .ocrText (fullText pages)) :=
    h.storeText (by decide) (by decide) (fullText pages)
  have htext : Function.update (storedText kept []) .ocrText (fullText pages) =
      storedText kept (fullText pages) := by
    funext kind
    cases kind <;> rfl
  rw [htext] at hstored
  rw [storePages]
  split
  · exact ⟨hstored.rows, hstored.nodup, hstored.known, hstored.objects⟩
  · rw [State.recordException]
    split <;> exact ⟨hstored.rows, hstored.nodup, hstored.known, hstored.objects⟩

/-- What is stored where OCR has come to the end. -/
theorem storePages_none (pages : List OcrPageResult) :
    (storePages tenantId version s pages none).found =
        s.found ++ [.ocrPages (pages.map (·.text))] ∧
      (storePages tenantId version s pages none).exceptions = s.exceptions ∧
      (storePages tenantId version s pages none).processingDetail = [] ∧
      (storePages tenantId version s pages none).item.ocrPages.map (·.text) =
        pages.map (·.text) ∧
      (storePages tenantId version s pages none).item.id = s.item.id ∧
      (storePages tenantId version s pages none).item.kind = s.item.kind := by
  rw [storePages, if_pos rfl]
  refine ⟨rfl, rfl, rfl, ?_, rfl, rfl⟩
  have htexts : (pages.zipIdx.map fun p => p.1).map (·.text) = pages.map (·.text) := by
    rw [List.zipIdx_map_fst]
  rw [List.map_map] at htexts
  dsimp only
  rw [List.map_map]
  exact htexts

variable {kinds : List TextKind} {text : TextKind → JsString}

/-- The text of a file is whole exactly if it is stored whole, and fits. -/
theorem fileText_whole_iff (h : Stores tenantId version s kinds text)
    (hbatch : s.item.kind ≠ .auditBatch) (hmem : .fileText ∈ kinds) (order : RowOrder) (now : ℤ)
    (found : JsString) :
    Whole s.item.kind (indexed order tenantId now s) (.fileText found) ↔
      trim found = [] ∨ toWellFormed (text .fileText) = trim found ∧
        Fits order s.item.extractedTexts text (textRow tenantId version s.item.id .fileText) := by
  rw [Whole, h.textOf hbatch (by decide) order now]
  by_cases hfits : Fits order s.item.extractedTexts text
      (textRow tenantId version s.item.id .fileText)
  · rw [if_pos ⟨hmem, hfits⟩, and_iff_left hfits]
  · rw [if_neg fun h => hfits h.2, eq_comm (a := []), or_self]
    exact (or_iff_left fun h => hfits h.2).symm

/-- Pages are whole exactly if there are no more than are taken, or their text is stored whole and
fits. -/
theorem ocrPages_whole_iff (h : Stores tenantId version s kinds text)
    (hbatch : s.item.kind ≠ .auditBatch) (hmem : .ocrText ∈ kinds) (order : RowOrder) (now : ℤ)
    {pages : List OcrPageResult} (htext : text .ocrText = fullText pages)
    (hpages : s.item.ocrPages.map (·.text) = pages.map (·.text)) :
    Whole s.item.kind (indexed order tenantId now s) (.ocrPages (pages.map (·.text))) ↔
      pages.length ≤ maxOcrPagesIndexed ∨ toWellFormed (fullText pages) = fullText pages ∧
        Fits order s.item.extractedTexts text (textRow tenantId version s.item.id .ocrText) := by
  have hrow : textRow tenantId version s.item.id .ocrText ∈
      order.order s.item.extractedTexts := by
    rw [(order.perm _).mem_iff, h.rows]
    exact List.mem_map_of_mem hmem
  have hdoc : (indexed order tenantId now s).ocrPages.getD [] =
      s.item.ocrPages.take maxOcrPagesIndexed := by
    rw [indexed, itemDoc, buildSearchDoc, searchDocInput]
    dsimp only
    rw [getD_ifAny, List.take_take, min_self]
  have hcount : ((indexed order tenantId now s).ocrPages.getD []).map (·.text) =
      pages.map (·.text) ↔ pages.length ≤ maxOcrPagesIndexed := by
    rw [hdoc, List.map_take, hpages, List.take_eq_self_iff, List.length_map]
  have hfull : trim (joinWith (js "\n\n") (pages.map (·.text))) = fullText pages := rfl
  rw [Whole, hcount, or_comm, h.textOf hbatch (by decide) order now, hfull, htext]
  refine or_congr_right ?_
  by_cases hfits : Fits order s.item.extractedTexts text
      (textRow tenantId version s.item.id .ocrText)
  · rw [if_pos ⟨hmem, hfits⟩, and_iff_left hfits]
  · -- only a text that is empty could be left out and be whole, and there is room for that
    rw [if_neg fun h => hfits h.2]
    refine iff_of_false (fun hnil => hfits ?_) fun h => hfits h.2
    refine Budget.mem_taken_of_size_eq_zero hrow ?_
    have hkind : (textRow tenantId version s.item.id .ocrText).kind = .ocrText := rfl
    rw [hkind, htext, ← hnil]
    rfl

end Files

/-! ## All items -/

section All

variable {deps : Deps} {tenantId : JsString} {version : ℕ} {order : RowOrder} {now : ℤ}
  {a : Acquired} {s : State}

/-- Where nothing was found nothing is missing. -/
theorem nothingSilent_of_found (hfound : s.found = []) (hbatch : s.item.kind ≠ .auditBatch)
    (doc : EvidenceSearchDoc) : NothingSilent s doc := by
  refine .inl ⟨fun found hmem => ?_, fun h => absurd h hbatch⟩
  rw [hfound] at hmem
  cases hmem

/-- Where nothing is said everything is to be whole. -/
theorem nothingSilent_of_silent (hdetail : ¬ SaysLeftOut s.processingDetail)
    (hexceptions : ∀ message ∈ s.exceptions, ¬ SaysLeftOut message)
    (hbatch : s.item.kind ≠ .auditBatch) (doc : EvidenceSearchDoc) :
    NothingSilent s doc ↔ ∀ found ∈ s.found, Whole s.item.kind doc found := by
  rw [NothingSilent, or_iff_left]
  · exact and_iff_left fun h => absurd h hbatch
  · rintro (h | ⟨message, hmem, h⟩)
    · exact hdetail h
    · exact hexceptions message hmem h

theorem markException_found (message : JsString) :
    (s.markException message).found = s.found ∧
      (s.markException message).item.kind = s.item.kind := by
  rw [State.markException, State.recordException]
  split <;> exact ⟨rfl, rfl⟩

theorem markException_detail (message : JsString) :
    (s.markException message).processingDetail = message.take 500 := rfl

/-- The detail of an email that was parsed does not say that text was cut. -/
theorem not_saysLeftOut_detail (detail parserName : JsString) :
    ¬ SaysLeftOut (if detail = js "extracted-from-pst" then js "extracted-from-pst"
      else if parserName = js "minimal-parser" then js "minimal-parser" else []) := by
  split_ifs
  · exact not_saysLeftOut (by decide) (by decide)
  · exact not_saysLeftOut (by decide) (by decide)
  · exact not_saysLeftOut (by decide) (by decide)

theorem not_saysLeftOut_acquired (a : Acquired) : ¬ SaysLeftOut a.processingDetail := by
  rcases a.detail with hdetail | hdetail
  · rw [hdetail]
    exact not_saysLeftOut (by decide) (by decide)
  · rw [hdetail]
    exact not_saysLeftOut (by decide) (by decide)

theorem parsed_iff (hkind : a.item.kind = .email)
    (h : processParse deps tenantId version a.start = s) :
    NothingSilent s (indexed order tenantId now s) ↔ AllFits deps tenantId version order a := by
  have hguard : ¬ (a.start.item.kind ≠ .email ∨ a.start.item.processingStatus ∈ doneStatuses) := by
    rintro (hne | hdone)
    · exact hne hkind
    · have hpending : a.start.item.processingStatus = .pending := a.status
      rw [hpending] at hdone
      exact absurd hdone (by decide)
  have hbatch : a.start.item.kind ≠ .auditBatch := by
    rw [show a.start.item.kind = a.item.kind from rfl, hkind]
    decide
  have hstart : a.start.input = a.input := rfl
  rw [processParse, if_neg hguard, hstart] at h
  rw [AllFits, hkind]
  dsimp only
  rcases hinput : a.input with _ | raw
  · rw [hinput] at h
    subst h
    exact iff_of_true (nothingSilent_of_found rfl hbatch _) fun raw hraw => nomatch hraw
  rw [hinput] at h
  dsimp only at h
  by_cases hlarge : maxInputBytes < raw.length
  · rw [if_pos hlarge] at h
    subst h
    refine iff_of_true (nothingSilent_of_found (markException_found _).1 ?_ _) ?_
    · rw [(markException_found _).2]
      exact hbatch
    · intro other hother hle
      obtain rfl := Option.some.inj hother
      omega
  rw [if_neg hlarge] at h
  rcases hparse : deps.parse raw with message | email
  · rw [hparse] at h
    subst h
    refine iff_of_true (nothingSilent_of_found (markException_found _).1 ?_ _) ?_
    · rw [(markException_found _).2]
      exact hbatch
    · intro other hother _ email hemail
      obtain rfl := Option.some.inj hother
      rw [hparse] at hemail
      cases hemail
  · rw [hparse] at h
    dsimp only at h
    have hstored := @stores_bodies tenantId version a.start
      (a.texts (by rw [hkind]; decide)) (email.bodyPlain.take maxBodyChars)
      ((htmlText deps email).take maxBodyChars)
    have hstores : Stores tenantId version s
        (bodyKinds (email.bodyPlain.take maxBodyChars) ((htmlText deps email).take maxBodyChars))
        (bodies (email.bodyPlain.take maxBodyChars)
          ((htmlText deps email).take maxBodyChars)) := by
      subst h
      exact ⟨hstored.rows, hstored.nodup, hstored.known, hstored.objects⟩
    have hemail : s.item.kind = .email := by
      subst h
      change (storeBody tenantId version _ _ _).item.kind = _
      rw [(storeBody_kind _ _).1, (storeBody_kind _ _).1]
      exact hkind
    have hdetail : ¬ SaysLeftOut s.processingDetail := by
      subst h
      exact not_saysLeftOut_detail _ _
    have hexceptions : s.exceptions = [] := by
      subst h
      change (storeBody tenantId version _ _ _).exceptions = _
      rw [(storeBody_kind _ _).2, (storeBody_kind _ _).2]
      rfl
    have hfound : s.found =
        [.bodyPlain email.bodyPlain, .bodyHtmlToText (htmlText deps email)] := by
      subst h
      rfl
    have hsilent := nothingSilent_of_silent hdetail
      (fun message hmem => nomatch hexceptions ▸ hmem) (by rw [hemail]; decide)
      (indexed order tenantId now s)
    rw [hsilent, hfound, List.forall_mem_cons, List.forall_mem_singleton, hemail, Whole, Whole,
      email_whole_iff hstores hemail order now]
    refine ⟨fun hfits other hother _ email' hemail' => ?_, fun hfits => ?_⟩
    · obtain rfl := Option.some.inj hother
      obtain rfl := Except.ok.inj (hparse.symm.trans hemail')
      exact hfits
    · exact hfits raw rfl (not_lt.mp hlarge) email hparse

/-- A file without pages. -/
theorem unread_iff {found kept : JsString}
    (h : Stores tenantId version s [.fileText] (storedText kept []))
    (hfound : s.found = [.fileText found]) (hdetail : ¬ SaysLeftOut s.processingDetail)
    (hexceptions : ∀ message ∈ s.exceptions, ¬ SaysLeftOut message)
    (hbatch : s.item.kind ≠ .auditBatch) :
    NothingSilent s (indexed order tenantId now s) ↔
      TextFits tenantId version order [textRow tenantId version s.item.id .fileText] s.item.id found
        kept [] := by
  rw [nothingSilent_of_silent hdetail hexceptions hbatch, hfound, List.forall_mem_singleton,
    fileText_whole_iff h hbatch (List.mem_singleton_self _) order now found, h.rows]
  rfl

/-- A file all of whose pages were read. -/
theorem allRead_iff {found kept : JsString} {pages : List OcrPageResult}
    (h : Stores tenantId version s [.fileText, .ocrText] (storedText kept (fullText pages)))
    (hfound : s.found = [.fileText found, .ocrPages (pages.map (·.text))])
    (hpages : s.item.ocrPages.map (·.text) = pages.map (·.text))
    (hdetail : ¬ SaysLeftOut s.processingDetail)
    (hexceptions : ∀ message ∈ s.exceptions, ¬ SaysLeftOut message)
    (hbatch : s.item.kind ≠ .auditBatch) :
    NothingSilent s (indexed order tenantId now s) ↔
      FileFits tenantId version order s.item.id found kept (.pages pages none) := by
  rw [nothingSilent_of_silent hdetail hexceptions hbatch, hfound, List.forall_mem_cons,
    List.forall_mem_singleton,
    fileText_whole_iff h hbatch (List.mem_cons_self ..) order now found,
    ocrPages_whole_iff h hbatch (List.mem_cons_of_mem _ (List.mem_singleton_self _)) order now rfl
      hpages, h.rows]
  rfl

theorem reading_of_run {mimeType extension : JsString} {chars : ℕ} {input : Buffer}
    (h : (ocrDecision deps.lower mimeType chars).run = false) :
    reading deps mimeType extension chars input = .nothing := by
  rw [reading, if_pos h]

/-- A file whose text is stored, and read by OCR if that is enqueued. -/
theorem persisted_iff {input : Buffer} {found kept : JsString} (hinput : a.input = some input)
    (htexts : a.start.item.extractedTexts = []) (hbatch : a.item.kind ≠ .auditBatch)
    (h : ((some (persistExtractedText deps tenantId version
      { a.start with found := a.start.found ++ [.fileText found] } kept)).bind fun (s, ocr) =>
        if ocr then processOcr deps tenantId version s else some s) = some s) :
    NothingSilent s (indexed order tenantId now s) ↔
      FileFits tenantId version order a.item.id found kept
        (reading deps a.item.mimeType a.item.extension (trim kept).length input) := by
  set t : State := (persistExtractedText deps tenantId version
    { a.start with found := a.start.found ++ [.fileText found] } kept).1 with ht
  have hstores : Stores tenantId version t [.fileText] (storedText kept []) := by
    rw [ht]
    exact @stores_extracted deps tenantId version
      { a.start with found := a.start.found ++ [.fileText found] } htexts kept
  have hcount : t.charCount = (trim kept).length := Nat.zero_max _
  have hunread : ∀ u : State, u.item = t.item → u.objects = t.objects → u.found = t.found →
      u.processingDetail = t.processingDetail →
      (∀ message ∈ u.exceptions, ¬ SaysLeftOut message) →
      (NothingSilent u (indexed order tenantId now u) ↔
        TextFits tenantId version order [textRow tenantId version a.item.id .fileText] a.item.id
          found kept []) := by
    intro u hitem hobjects hfound hsame hexceptions
    have hu : Stores tenantId version u [.fileText] (storedText kept []) := by
      refine ⟨?_, hstores.nodup, hstores.known, ?_⟩
      · rw [hitem]
        exact hstores.rows
      · rw [hitem, hobjects]
        exact hstores.objects
    have hid : u.item.id = t.item.id := congrArg ItemRows.id hitem
    have hkind : u.item.kind = t.item.kind := congrArg ItemRows.kind hitem
    have hdetail : ¬ SaysLeftOut u.processingDetail := hsame ▸ not_saysLeftOut_acquired a
    rw [unread_iff hu hfound hdetail hexceptions (hkind ▸ hbatch), hid]
    rfl
  have hrun : (if (ocrDecision deps.lower a.item.mimeType (trim kept).length).run then
      processOcr deps tenantId version t else some t) = some s := h
  by_cases hocr : (ocrDecision deps.lower a.item.mimeType (trim kept).length).run
  swap
  · rw [if_neg hocr] at hrun
    obtain rfl := Option.some.inj hrun
    rw [reading_of_run (Bool.eq_false_iff.mpr hocr)]
    exact hunread t rfl rfl rfl rfl fun _ hmem => nomatch hmem
  have hpages : ¬ t.item.ocrPages ≠ [] := not_not.mpr a.pages
  rw [if_pos hocr, processOcr, if_neg hpages] at hrun
  split at hrun
  · rename_i hnone
    have hnone : a.input = none := hnone
    rw [hinput] at hnone
    cases hnone
  rename_i other hother
  obtain rfl : input = other := Option.some.inj (hinput.symm.trans hother)
  rw [hcount] at hrun
  have hsame : reading deps t.item.mimeType t.item.extension (trim kept).length input =
      reading deps a.item.mimeType a.item.extension (trim kept).length input := rfl
  rw [hsame] at hrun
  rcases hreading : reading deps a.item.mimeType a.item.extension (trim kept).length input with
    ⟨pages, _ | stoppedAtPage⟩ | message | _ | _
  · rw [hreading] at hrun
    obtain rfl := Option.some.inj hrun
    obtain ⟨hfound, hexceptions, hnote, hread, hid, hkind⟩ :=
      @storePages_none tenantId version t pages
    have hkinds : (storePages tenantId version t pages none).item.kind = a.item.kind := hkind
    have hids : (storePages tenantId version t pages none).item.id = a.item.id := hid
    have hsilent : ¬ SaysLeftOut (storePages tenantId version t pages none).processingDetail := by
      rw [hnote]
      exact not_saysLeftOut (by decide) (by decide)
    have hiff := @allRead_iff tenantId version order now _ found kept pages
      (stores_pages hstores pages none) hfound hread hsilent
      (by rw [hexceptions]; exact fun _ hmem => nomatch hmem) (by rw [hkinds]; exact hbatch)
    rw [hids] at hiff
    exact hiff
  · rw [hreading] at hrun
    obtain rfl := Option.some.inj hrun
    refine iff_of_true (.inr (.inl (.inr ⟨stoppedAtPage, ?_⟩))) trivial
    rw [storePages, if_neg (Option.some_ne_none _), State.recordException]
    split <;> rfl
  · rw [hreading] at hrun
    obtain rfl := Option.some.inj hrun
    have hmessage := not_saysLeftOut_of_reading hreading
    rw [State.recordException]
    split
    · exact hunread t rfl rfl rfl rfl fun _ hmem => nomatch hmem
    · refine hunread _ rfl rfl rfl rfl fun other hmem => ?_
      obtain rfl := List.mem_singleton.mp hmem
      exact hmessage
  · rw [hreading] at hrun
    obtain rfl := Option.some.inj hrun
    exact hunread t rfl rfl rfl rfl fun _ hmem => nomatch hmem
  · rw [hreading] at hrun
    cases hrun

theorem extraction_iff (hkind : a.item.kind = .attachment ∨ a.item.kind = .file)
    (h : ((processExtract deps tenantId version a.start).bind fun (s, ocr) =>
      if ocr then processOcr deps tenantId version s else some s) = some s) :
    NothingSilent s (indexed order tenantId now s) ↔ AllFits deps tenantId version order a := by
  have hall : AllFits deps tenantId version order a ↔ ∀ input ∈ a.input, ∀ found kept,
      extraction deps a.item.mimeType a.item.name input = .text found kept →
        FileFits tenantId version order a.item.id found kept
          (reading deps a.item.mimeType a.item.extension (trim kept).length input) := by
    rcases hkind with hkind | hkind
    · rw [AllFits, hkind]
    · rw [AllFits, hkind]
  have hbatch : a.item.kind ≠ .auditBatch := by
    rcases hkind with hkind | hkind
    · rw [hkind]
      decide
    · rw [hkind]
      decide
  have htexts : a.start.item.extractedTexts = [] := a.texts <| by
    rcases hkind with hkind | hkind
    · rw [hkind]
      decide
    · rw [hkind]
      decide
  have hguard : ¬ (a.start.item.kind = .email ∨
      ∃ row ∈ a.start.item.extractedTexts, row.kind = .fileText) := by
    rintro (hemail | ⟨row, hrow, -⟩)
    · have hemail : a.item.kind = .email := hemail
      rcases hkind with hkind | hkind
      · rw [hkind] at hemail
        cases hemail
      · rw [hkind] at hemail
        cases hemail
    · rw [htexts] at hrow
      cases hrow
  rw [hall]
  rw [processExtract, if_neg hguard] at h
  split at h
  · rename_i hinput
    have hinput : a.input = none := hinput
    obtain rfl := Option.some.inj h
    rw [hinput]
    exact iff_of_true (nothingSilent_of_found rfl hbatch _) fun input hmem => nomatch hmem
  rename_i input hinput
  have hinput : a.input = some input := hinput
  rw [hinput]
  have hone : (∀ other ∈ some input, ∀ found kept,
      extraction deps a.item.mimeType a.item.name other = .text found kept →
        FileFits tenantId version order a.item.id found kept
          (reading deps a.item.mimeType a.item.extension (trim kept).length other)) ↔
      ∀ found kept, extraction deps a.item.mimeType a.item.name input = .text found kept →
        FileFits tenantId version order a.item.id found kept
          (reading deps a.item.mimeType a.item.extension (trim kept).length input) :=
    ⟨fun hall => hall input rfl, fun hall other hother => Option.some.inj hother ▸ hall⟩
  rw [hone]
  dsimp only at h
  rcases hext : extraction deps a.start.item.mimeType a.start.item.name input with
    ⟨found, kept⟩ | message | found | _
  · have htext : (∀ found' kept', extraction deps a.item.mimeType a.item.name input =
        .text found' kept' → FileFits tenantId version order a.item.id found' kept'
          (reading deps a.item.mimeType a.item.extension (trim kept').length input)) ↔
        FileFits tenantId version order a.item.id found kept
          (reading deps a.item.mimeType a.item.extension (trim kept).length input) := by
      refine ⟨fun hall => hall found kept hext, fun hfits found' kept' hext' => ?_⟩
      obtain ⟨rfl, rfl⟩ := Extraction.text.inj (hext.symm.trans hext')
      exact hfits
    rw [htext]
    rw [hext] at h
    exact persisted_iff hinput htexts hbatch h
  · rw [hext] at h
    have hmarked : some (a.start.markException message) = some s := h
    obtain rfl := Option.some.inj hmarked
    refine iff_of_true (nothingSilent_of_found (markException_found _).1 ?_ _) ?_
    · rw [(markException_found _).2]
      exact hbatch
    · intro found kept htext
      cases hext.symm.trans htext
  · rw [hext] at h
    have hmarked : some (({ a.start with found := a.start.found ++ [.fileText found] } :
        State).markException textTooLarge) = some s := h
    obtain rfl := Option.some.inj hmarked
    refine iff_of_true (.inr (.inl (.inl ?_))) ?_
    · rw [markException_detail]
      decide
    · intro found kept htext
      cases hext.symm.trans htext
  · rw [hext] at h
    cases h

/-- **No text is missing silently** exactly if everything fits. -/
theorem nothingSilent_iff (deps : Deps) (tenantId : JsString) (version : ℕ) (order : RowOrder)
    (now : ℤ) (a : Acquired) (s : State) (h : complete deps tenantId version a = some s) :
    NothingSilent s (indexed order tenantId now s) ↔ AllFits deps tenantId version order a := by
  rw [complete] at h
  have hnone : ∀ hkind : a.item.kind ≠ .auditBatch, some a.start = some s →
      NothingSilent s (indexed order tenantId now s) := by
    intro hkind hs
    obtain rfl := Option.some.inj hs
    exact nothingSilent_of_found rfl hkind _
  cases hkind : a.item.kind with
  | email =>
    rw [hkind] at h
    exact parsed_iff hkind (Option.some.inj h)
  | attachment =>
    rw [hkind] at h
    exact extraction_iff (.inl hkind) h
  | file =>
    rw [hkind] at h
    exact extraction_iff (.inr hkind) h
  | auditBatch =>
    rw [hkind] at h
    obtain rfl := Option.some.inj h
    have hrecords : a.start.item = a.item := rfl
    have htexts : a.start.item.extractedTexts = [] := a.texts (by rw [hkind]; decide)
    rw [AllFits, hkind]
    dsimp only
    rw [← hrecords, ← batch_whole_iff htexts hkind order tenantId now, NothingSilent, or_iff_left]
    · rw [hrecords, hkind]
      exact ⟨fun h => h.2 rfl, fun h => ⟨fun _ hmem => (nomatch hmem), fun _ => h⟩⟩
    · rintro (hdetail | ⟨message, hmem, -⟩)
      · exact not_saysLeftOut_acquired a hdetail
      · cases hmem
  | folderMetadata | container | auditRecord | chatMessage | chatConversation =>
    rw [hkind] at h
    refine iff_of_true (hnone (by rw [hkind]; decide) h) ?_
    rw [AllFits, hkind]
    trivial

end All

/-! ## A long letter -/

/-- An email that has just been collected. -/
def letter : Acquired where
  item :=
    { id := js "item"
      kind := .email
      name := js "letter.eml"
      extension := js "eml"
      mimeType := js "message/rfc822"
      size := 1
      sha256 := []
      custodianId := none
      custodianEmail := none
      provider := none
      collectionId := some (js "collection")
      importId := none
      importOwnerId := none
      sourcePath := js "/inbox"
      sourceLabels := []
      processingStatus := .pending
      malwareStatus := .clean
      primaryDate := none
      acquiredAt := 0
      sourceCreatedAt := none
      sourceModifiedAt := none
      emailMetadata := none
      participants := []
      headers := []
      extractedTexts := []
      ocrPages := []
      tags := []
      caseItems := []
      productionItems := []
      childRelationships := []
      parentRelationships := []
      auditRecords := [] }
  input := some [0x0A]
  processingDetail := []
  objects := fun _ => none
  status := rfl
  texts _ := rfl
  pages := rfl
  detail := .inl rfl

/-- The parser finds this body in every email. -/
def mailroom (body : JsString) : Deps where
  lower := asciiLowerCase
  sofficeFallback := false
  maxOcrPages := 100
  parse _ := .ok
    { subject := []
      messageId := []
      inReplyTo := []
      references := []
      rawDateHeader := []
      date := none
      headers := []
      addresses := fun _ => []
      bodyPlain := body
      bodyHtml := none
      attachments := []
      isEncrypted := false
      smimeType := []
      parserName := js "mailparse"
      parserVersion := js "1" }
  htmlToText html := html
  tika _ _ := ⟨422, none, []⟩
  pdftotext _ _ _ := .error []
  runner :=
    { tesseractVersion := none
      pdfRasterAvailable := false
      ocrImage := fun _ => .error []
      pdfToImages := fun _ _ => .error []
      documentToPdf := fun _ _ => none }

/-- The rows come back as they were written. -/
def asWritten : RowOrder where
  order rows := rows
  perm _ := .refl _

theorem nothingSilent_letter :
    let s := processParse (mailroom (js "Dear all")) (js "tenant") 1 letter.start
    NothingSilent s (indexed asWritten (js "tenant") 0 s) := by
  refine (nothingSilent_iff (mailroom (js "Dear all")) (js "tenant") 1 asWritten 0 letter _
    rfl).mpr ?_
  intro raw _ _ email hemail
  obtain rfl := Except.ok.inj hemail
  exact ⟨⟨by decide, by decide⟩, ⟨by decide, by decide⟩, by decide⟩

/-- A body that is one character longer than the cap is cut, and nothing says so. -/
theorem long_letter_cut : ∃ s,
    complete (mailroom (List.replicate (maxBodyChars + 1) (unitOf 'a'))) (js "tenant") 1 letter =
        some s ∧
      ¬ NothingSilent s (indexed asWritten (js "tenant") 0 s) := by
  refine ⟨_, rfl, fun h => ?_⟩
  have hfits := (parsed_iff rfl rfl).mp h
  have hlength : (List.replicate (maxBodyChars + 1) (unitOf 'a')).length ≤ maxBodyChars :=
    (hfits [0x0A] rfl (by decide) _ rfl).bodyPlain.1
  rw [List.length_replicate] at hlength
  exact absurd hlength (Nat.not_succ_le_self _)

end AegCloudDfir.Search.WholeTexts
