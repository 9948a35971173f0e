import AegCloudDfir.Evidence.ObjectKeys
import AegCloudDfir.Js.Casing
import AegCloudDfir.Js.Encoding
import AegCloudDfir.Processing.ParseAdapter
import AegCloudDfir.Search.Document

/-!
# The stages that find texts

`processParse` takes the bodies of an email, `processExtract` has Tika read the text of a file, or
LibreOffice where Tika declines the format, and `processOcr` has tesseract read its pages
(`apps/worker/src/processors`). Each cuts what it finds, stores it next to the item and writes rows
about it; what it does not take it may say in the exceptions ledger and in `processingDetail`.

One item is followed here, whose jobs run one after the other; what the tools answer is a parameter
(`Deps`). Errors are what `sanitizeError` makes of them. Of an email the rows about its bodies are
written; its other rows are there from the start, and its attachments are items of their own.

* `processParse`, `processExtract`, `processOcr` — the stages.
* `complete` — what becomes of an item that has just been acquired.
-/

namespace AegCloudDfir.Processing.TextStages

open Evidence (Buffer)
open Evidence.Keys (tenantKey)
open ParseAdapter (ParsedEmail)
open Production (EvidenceKind ProcessingStatus)
open Search (ItemRows ExtractedText TextKind OcrPageRow AuditRecordRow asciiLower trim)

/-! ## Caps -/

/-- `MAX_EMAIL_BYTES` and `MAX_INPUT_BYTES` -/
def maxInputBytes : ℕ := 200 * 1024 * 1024

/-- `MAX_BODY_CHARS` -/
def maxBodyChars : ℕ := 1024 * 1024

/-- `MAX_TEXT_BYTES` -/
def maxTextBytes : ℕ := 50 * 1024 * 1024

/-- `LOW_TEXT_THRESHOLD` -/
def lowTextThreshold : ℕ := 40

/-- The message of a `PayloadTooLargeError`. -/
def payloadTooLarge (limitBytes : ℕ) : JsString :=
  js "payload exceeds the " ++ decimal limitBytes ++ js " byte processing limit"

/-- The message of `processExtract` about a text that is not taken. -/
def textTooLarge : JsString := js "extracted text exceeds the 50MB processing cap"

/-- `truncationNote` -/
def truncationNote (stoppedAtPage : ℕ) : JsString :=
  js "ocr read the first " ++ decimal stoppedAtPage ++ js " page(s); the document has more, " ++
    js "so text beyond that page is NOT in this record or in search"

/-! ## Which tools are used -/

/-- What is in front of the first semicolon. -/
def beforeSemicolon (s : JsString) : JsString := s.takeWhile fun c => c ≠ unitOf ';'

/-- `OcrReason` -/
inductive OcrReason : Type where
  | image
  | pdf
  | documentWithoutText
  | notOcrable
  deriving DecidableEq

/-- `OcrDecision` -/
structure OcrDecision where
  run : Bool
  convertFirst : Bool
  reason : OcrReason
  deriving DecidableEq

/-- `CONVERTIBLE_DOCUMENTS` -/
def convertibleDocuments : List JsString :=
  [js "application/msword",
    js "application/vnd.openxmlformats-officedocument.wordprocessingml.document",
    js "application/vnd.ms-powerpoint",
    js "application/vnd.openxmlformats-officedocument.presentationml.presentation",
    js "application/vnd.ms-excel",
    js "application/vnd.openxmlformats-officedocument.spreadsheetml.sheet",
    js "application/vnd.oasis.opendocument.text",
    js "application/vnd.oasis.opendocument.presentation",
    js "application/vnd.oasis.opendocument.spreadsheet",
    js "application/rtf",
    js "text/rtf"]

/-- `CONVERTIBLE` -/
def convertible : List JsString :=
  [js "application/x-mspublisher",
    js "application/vnd.ms-publisher",
    js "application/vnd.visio",
    js "application/x-visio",
    js "application/wordperfect",
    js "application/x-wordperfect",
    js "application/vnd.wordperfect",
    js "application/x-mswrite",
    js "application/vnd.lotus-1-2-3",
    js "application/vnd.ms-works",
    js "application/x-abiword",
    js "application/x-starwriter"]

/-- `CONVERTIBLE_EXTENSIONS` -/
def convertibleExtensions : List JsString :=
  [js "pub", js "vsd", js "vsdx", js "wpd", js "wri", js "123", js "wps", js "abw", js "sdw",
    js "sdc"]

section Decisions

variable (lower : LowerCase)

/-- `ocrDecision` -/
def ocrDecision (mimeType : JsString) (extractedChars : ℕ) : OcrDecision :=
  let mime := lower.toLowerCase (trim (beforeSemicolon mimeType))
  if startsWith mime (js "image/") then ⟨true, false, .image⟩
  else if mime = js "application/pdf" then ⟨true, false, .pdf⟩
  else if mime ∈ convertibleDocuments ∧ extractedChars < lowTextThreshold then
    ⟨true, true, .documentWithoutText⟩
  else ⟨false, false, .notOcrable⟩

/-- `extensionOf` of `soffice.ts` -/
def extensionOf (filename : JsString) : JsString :=
  if unitOf '.' ∈ filename then
    let behind := (filename.reverse.takeWhile fun c => c ≠ unitOf '.').reverse
    (lower.toLowerCase behind).filter fun c => (0x61 ≤ c ∧ c ≤ 0x7A) ∨ (0x30 ≤ c ∧ c ≤ 0x39)
  else []

/-- `isConvertible` -/
def isConvertible (mimeType filename : JsString) : Bool :=
  trim (beforeSemicolon (lower.toLowerCase mimeType)) ∈ convertible ∨
    extensionOf lower filename ∈ convertibleExtensions

end Decisions

/-! ## The tools -/

/-- The answer of Tika. -/
structure TikaResponse where
  status : ℕ
  /-- the header `content-length`, if it is a number -/
  contentLength : Option ℕ
  text : JsString

/-- `OcrPageResult` -/
structure OcrPageResult where
  text : JsString
  confidence : ℚ

/-- `OcrRunner` -/
structure OcrRunner where
  tesseractVersion : Option JsString
  pdfRasterAvailable : Bool
  ocrImage : Buffer → Except JsString OcrPageResult
  pdfToImages : Buffer → ℕ → Except JsString (List Buffer)
  documentToPdf : Buffer → JsString → Option Buffer

/-- What the stages use, with `config`. -/
structure Deps where
  lower : LowerCase
  /-- `CDFIR_SOFFICE_FALLBACK` -/
  sofficeFallback : Bool
  /-- `CDFIR_MAX_OCR_PAGES` -/
  maxOcrPages : ℕ
  /-- `parser.parse` -/
  parse : Buffer → Except JsString ParsedEmail
  /-- `parser.htmlToText` -/
  htmlToText : JsString → JsString
  /-- `PUT /tika`, with the type of the content -/
  tika : Buffer → JsString → TikaResponse
  /-- what `pdftotext` writes of the document LibreOffice has made a PDF of, or the reason there is
  no such text -/
  pdftotext : Buffer → JsString → JsString → Except JsString JsString
  runner : OcrRunner

/-! ## The item -/

/-- A text a stage has found, before it cuts it. -/
inductive Found : Type where
  | bodyPlain (text : JsString)
  | bodyHtmlToText (text : JsString)
  | fileText (text : JsString)
  | ocrPages (texts : List JsString)

/-- An item and what there is about it. -/
structure State where
  item : ItemRows
  /-- the bytes of the item, if it has a blob -/
  input : Option Buffer
  processingDetail : JsString
  /-- the messages of its rows of `collection_exceptions` -/
  exceptions : List JsString
  /-- the derivatives, by their keys -/
  objects : JsString → Option Buffer
  /-- the greatest `charCount` of its texts -/
  charCount : ℕ
  /-- the texts the stages have found; nothing reads them but the specification -/
  found : List Found

variable (deps : Deps) (tenantId : JsString) (version : ℕ)

/-- `derivativeKey`, where it refuses nothing -/
def derivativeKey (id derivativeType filename : JsString) : JsString :=
  tenantKey tenantId (js "derivatives") [id, derivativeType, decimal version, filename]

/-- Where the text of a kind is stored. -/
def textKey (id : JsString) : TextKind → JsString
  | .bodyPlain => derivativeKey tenantId version id (js "text") (js "body.txt")
  | .bodyHtmlToText => derivativeKey tenantId version id (js "text") (js "body-html.txt")
  | .ocrText => derivativeKey tenantId version id (js "ocr") (js "ocr.txt")
  | _ => derivativeKey tenantId version id (js "text") (js "file-text.txt")

/-- The row of a text. -/
def textRow (id : JsString) (kind : TextKind) : ExtractedText :=
  ⟨kind, textKey tenantId version id kind⟩

namespace State

variable (s : State)

/-- `recordException`, for an item of a collection -/
def recordException (message : JsString) : State :=
  if s.item.collectionId = none then s else { s with exceptions := s.exceptions ++ [message] }

/-- `markException` and `markExtractException` -/
def markException (message : JsString) : State :=
  { s.recordException message with
    item := { s.item with processingStatus := .exception }
    processingDetail := message.take 500 }

/-- `putDerivative` with the text, and `extractedText.upsert` -/
def storeText (kind : TextKind) (text : JsString) : State :=
  let row := textRow tenantId version s.item.id kind
  { s with
    objects := Function.update s.objects row.objectKey (some (toUtf8 text))
    item := { s.item with
      extractedTexts :=
        if row ∈ s.item.extractedTexts then s.item.extractedTexts
        else s.item.extractedTexts ++ [row] }
    charCount := max s.charCount text.length }

end State

/-! ## The stages -/

/-- `DONE_STATUSES` -/
def doneStatuses : List ProcessingStatus :=
  [.parsed, .extracted, .ocrComplete, .previewReady, .indexed]

/-- A body is stored unless it is empty. -/
def storeBody (s : State) (kind : TextKind) (body : JsString) : State :=
  if body = [] then s else s.storeText tenantId version kind body

/-- `htmlToText` of the HTML, or nothing -/
def htmlText (email : ParsedEmail) : JsString := (email.bodyHtml.map deps.htmlToText).getD []

/-- `processParse` -/
def processParse (s : State) : State :=
  if s.item.kind ≠ .email ∨ s.item.processingStatus ∈ doneStatuses then s
  else
    match s.input with
    | none => s
    | some raw =>
      if maxInputBytes < raw.length then s.markException (payloadTooLarge maxInputBytes)
      else
        match deps.parse raw with
        | .error message => s.markException message
        | .ok email =>
          let stored := storeBody tenantId version
            (storeBody tenantId version s .bodyPlain (email.bodyPlain.take maxBodyChars))
            .bodyHtmlToText ((htmlText deps email).take maxBodyChars)
          { stored with
            item := { stored.item with processingStatus := .parsed }
            processingDetail :=
              if s.processingDetail = js "extracted-from-pst" then js "extracted-from-pst"
              else if email.parserName = js "minimal-parser" then js "minimal-parser"
              else []
            found := s.found ++
              [.bodyPlain email.bodyPlain, .bodyHtmlToText (htmlText deps email)] }

/-- What the limit leaves of scalar values that are written one after the other: one that is cut is
read as U+FFFD. -/
def cutScalars : ℕ → List ℕ → List ℕ
  | _, [] => []
  | limit, n :: ns =>
    if (utf8Bytes n).length ≤ limit then n :: cutScalars (limit - (utf8Bytes n).length) ns
    else if limit = 0 then [] else [0xFFFD]

/-- `raw.subarray(0, limit).toString('utf8')`, for the bytes of a text -/
def cutBytes (limit : ℕ) (text : JsString) : JsString :=
  (cutScalars limit (scalars text)).flatMap scalarUnits

/-- The text of a file, as it is stored, or why there is none. -/
inductive Extraction : Type where
  /-- the text that was found and what is left of it -/
  | text (found kept : JsString)
  | refused (message : JsString)
  /-- a text was found, and is not taken -/
  | tooLarge (found : JsString)
  /-- the job fails -/
  | fails

/-- `convertToPlainText`, and the message if it does not recover a text -/
def convertToPlainText (input : Buffer) (mimeType filename : JsString) : Extraction :=
  let failed (reason : JsString) := Extraction.refused <|
    js "document type is not supported by the text extractor; " ++
      js "LibreOffice fallback also failed (" ++ reason ++ js ")"
  match deps.pdftotext input mimeType filename with
  | .error reason => failed reason
  | .ok raw =>
    let text := cutBytes maxTextBytes raw
    if trim text = [] then failed (js "conversion produced no extractable text")
    else .text raw text

/-- What `processExtract` makes of the bytes. -/
def extraction (mimeType name : JsString) (input : Buffer) : Extraction :=
  if maxInputBytes < input.length then .refused (payloadTooLarge maxInputBytes)
  else
    let contentType := if mimeType = [] then js "application/octet-stream" else mimeType
    let response := deps.tika input contentType
    if response.status = 422 then
      if js "encrypt" <:+: asciiLower response.text then
        .refused (js "document is encrypted or password protected; text extraction is not possible")
      else if deps.sofficeFallback ∧ isConvertible deps.lower mimeType name then
        convertToPlainText deps input mimeType name
      else .refused (js "document type is not supported by the text extractor")
    else if response.status < 200 ∨ 300 ≤ response.status then .fails
    else if response.contentLength.any fun length => maxTextBytes < length then
      .tooLarge response.text
    else if maxTextBytes < Search.byteLength response.text then
      .text response.text (response.text.take maxTextBytes)
    else .text response.text response.text

/-- `persistExtractedText`; also whether `process.ocr` is enqueued -/
def persistExtractedText (s : State) (text : JsString) : State × Bool :=
  let trimmed := trim text
  let s := s.storeText tenantId version .fileText trimmed
  ({ s with item := { s.item with processingStatus := .extracted } },
    (ocrDecision deps.lower s.item.mimeType trimmed.length).run)

/-- `processExtract`; also whether `process.ocr` is enqueued -/
def processExtract (s : State) : Option (State × Bool) :=
  if s.item.kind = .email ∨ (∃ row ∈ s.item.extractedTexts, row.kind = .fileText) then
    some (s, false)
  else
    match s.input with
    | none => some (s, false)
    | some input =>
      match extraction deps s.item.mimeType s.item.name input with
      | .text found kept =>
        some (persistExtractedText deps tenantId version
          { s with found := s.found ++ [.fileText found] } kept)
      | .refused message => some (s.markException message, false)
      | .tooLarge found =>
        let s : State := { s with found := s.found ++ [.fileText found] }
        some (s.markException textTooLarge, false)
      | .fails => none

/-- The pages tesseract reads, and where it stops if there are more. -/
def readPages (decision : OcrDecision) (extension : JsString) (input : Buffer) :
    Except JsString (List OcrPageResult × Option ℕ) := do
  let toRasterize ←
    if decision.convertFirst then
      match deps.runner.documentToPdf input extension with
      | some pdf => pure pdf
      | none => throw (js "document could not be converted to pdf for ocr")
    else pure input
  if decision.reason = .pdf ∨ decision.convertFirst then
    let rasterised ← deps.runner.pdfToImages toRasterize (deps.maxOcrPages + 1)
    let pages ← (rasterised.take deps.maxOcrPages).mapM deps.runner.ocrImage
    pure (pages, if deps.maxOcrPages < rasterised.length then some deps.maxOcrPages else none)
  else
    let page ← deps.runner.ocrImage input
    pure ([page], none)

/-- The text of some pages. -/
def fullText (pages : List OcrPageResult) : JsString :=
  trim (joinWith (js "\n\n") (pages.map (·.text)))

/-- What `processOcr` stores. -/
def storePages (s : State) (pages : List OcrPageResult) (stoppedAtPage : Option ℕ) : State :=
  let stored := s.storeText tenantId version .ocrText (fullText pages)
  let note := (stoppedAtPage.map truncationNote).getD []
  let s := { stored with
    item := { stored.item with
      ocrPages := pages.zipIdx.map fun (page, index) => ⟨index + 1, page.text, page.confidence⟩
      processingStatus := .ocrComplete }
    processingDetail := note
    found := s.found ++ [.ocrPages (pages.map (·.text))] }
  if stoppedAtPage = none then s else s.recordException note

/-- The pages of the bytes, or why there are none. -/
inductive Reading : Type where
  /-- what was read, and where it stopped if there is more -/
  | pages (pages : List OcrPageResult) (stoppedAtPage : Option ℕ)
  | failed (message : JsString)
  /-- the item is none for OCR -/
  | nothing
  /-- the job fails -/
  | fails

/-- What `processOcr` makes of the bytes. -/
def reading (mimeType extension : JsString) (extractedChars : ℕ) (input : Buffer) : Reading :=
  let decision := ocrDecision deps.lower mimeType extractedChars
  let isPdf := decision.reason = .pdf ∨ decision.convertFirst
  if decision.run = false then .nothing
  else if deps.runner.tesseractVersion = none then
    .failed (js "ocr engine unavailable on this host")
  else if isPdf ∧ ¬ deps.runner.pdfRasterAvailable then
    .failed (js "pdf rasterizer unavailable on this host; pdf ocr skipped")
  else if maxInputBytes < input.length then .fails
  else
    match readPages deps decision extension input with
    | .error message => .failed (js "ocr failed: " ++ message)
    | .ok (pages, stoppedAtPage) => .pages pages stoppedAtPage

/-- `processOcr` -/
def processOcr (s : State) : Option State :=
  if s.item.ocrPages ≠ [] then some s
  else
    match s.input with
    | none => some s
    | some input =>
      match reading deps s.item.mimeType s.item.extension s.charCount input with
      | .pages pages stoppedAtPage => some (storePages tenantId version s pages stoppedAtPage)
      | .failed message => some (s.recordException message)
      | .nothing => some s
      | .fails => none

/-! ## All of them -/

/-- An item that has just been acquired. -/
structure Acquired where
  item : ItemRows
  input : Option Buffer
  processingDetail : JsString
  objects : JsString → Option Buffer
  status : item.processingStatus = .pending
  /-- only the text of a chat message is stored with it -/
  texts : item.kind ≠ .chatMessage → item.extractedTexts = []
  pages : item.ocrPages = []
  /-- a message out of a container says so -/
  detail : processingDetail = [] ∨ processingDetail = js "extracted-from-pst"

/-- Nothing has been found. -/
def Acquired.start (a : Acquired) : State where
  item := a.item
  input := a.input
  processingDetail := a.processingDetail
  exceptions := []
  objects := a.objects
  charCount := 0
  found := []

/-- An item whose jobs have completed: an email is parsed, an attachment or a file is extracted, and
read by OCR if that is enqueued. -/
def complete (a : Acquired) : Option State :=
  match a.item.kind with
  | .email => some (processParse deps tenantId version a.start)
  | .attachment | .file =>
    (processExtract deps tenantId version a.start).bind fun (s, ocr) =>
      if ocr then processOcr deps tenantId version s else some s
  | _ => some a.start

end AegCloudDfir.Processing.TextStages
