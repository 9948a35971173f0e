import AegCloudDfir.Js.Encoding
import AegCloudDfir.Lib.Traversal

/-!
# Concordance load files

`buildDatFile` of `packages/production/src/dat.ts`: a row for the headers and one for every
record, cells in quote characters, a delimiter between cells and CRLF behind rows. The values are
sanitized as texts, and then the file is written in UTF-8 or Latin-1. A character that is nothing
special in the text may be the delimiter, the quote or a line break in the bytes.

* `readDat` — the bytes split at CRLF and at the delimiter, without the quotes.
* `expectedCell` — what a cell is to say: the value without quotes, with the substitute for every
  newline and a blank for every delimiter.
* `readable_iff` — the file says that exactly if, once written, every quoted cell is what it is to
  be, none contains the delimiter, and no row contains CRLF.
-/

namespace AegCloudDfir.Production

open Evidence (Buffer)
open PrefixCode Split Traversal

/-! ## Records -/

/-- `ProducedItemRecord` -/
structure ProducedItemRecord where
  begBates : JsString
  endBates : JsString
  begAttach : Option JsString
  endAttach : Option JsString
  custodian : Option JsString
  sourcePath : Option JsString
  fileName : Option JsString
  extension : Option JsString
  mime : Option JsString
  sha256 : Option JsString
  fromAddresses : Option JsString
  toAddresses : Option JsString
  cc : Option JsString
  bcc : Option JsString
  subject : Option JsString
  sentDate : Option JsString
  receivedDate : Option JsString
  dateCreated : Option JsString
  dateModified : Option JsString
  textPath : Option JsString
  nativePath : Option JsString
  tags : List JsString

/-- `keyof ProducedItemRecord` -/
inductive RecordField : Type where
  | begBates
  | endBates
  | begAttach
  | endAttach
  | custodian
  | sourcePath
  | fileName
  | extension
  | mime
  | sha256
  | fromAddresses
  | toAddresses
  | cc
  | bcc
  | subject
  | sentDate
  | receivedDate
  | dateCreated
  | dateModified
  | textPath
  | nativePath
  | tags
  deriving DecidableEq

/-- `value === null ? '' : Array.isArray(value) ? value.join(multiValueSeparator) : value`, for
`record[source]` -/
def recordValue (record : ProducedItemRecord) (multiValueSeparator : JsString) :
    RecordField → JsString
  | .begBates => record.begBates
  | .endBates => record.endBates
  | .begAttach => record.begAttach.getD []
  | .endAttach => record.endAttach.getD []
  | .custodian => record.custodian.getD []
  | .sourcePath => record.sourcePath.getD []
  | .fileName => record.fileName.getD []
  | .extension => record.extension.getD []
  | .mime => record.mime.getD []
  | .sha256 => record.sha256.getD []
  | .fromAddresses => record.fromAddresses.getD []
  | .toAddresses => record.toAddresses.getD []
  | .cc => record.cc.getD []
  | .bcc => record.bcc.getD []
  | .subject => record.subject.getD []
  | .sentDate => record.sentDate.getD []
  | .receivedDate => record.receivedDate.getD []
  | .dateCreated => record.dateCreated.getD []
  | .dateModified => record.dateModified.getD []
  | .textPath => record.textPath.getD []
  | .nativePath => record.nativePath.getD []
  | .tags => joinWith multiValueSeparator record.tags

/-- `DatFieldMapping` -/
structure DatFieldMapping where
  loadFileField : JsString
  source : RecordField

/-- `DEFAULT_DAT_PROFILE` -/
def defaultDatProfile : List DatFieldMapping :=
  [⟨js "BegBates", .begBates⟩, ⟨js "EndBates", .endBates⟩, ⟨js "BegAttach", .begAttach⟩,
    ⟨js "EndAttach", .endAttach⟩, ⟨js "Custodian", .custodian⟩, ⟨js "SourcePath", .sourcePath⟩,
    ⟨js "FileName", .fileName⟩, ⟨js "Extension", .extension⟩, ⟨js "MIME", .mime⟩,
    ⟨js "SHA256", .sha256⟩, ⟨js "From", .fromAddresses⟩, ⟨js "To", .toAddresses⟩,
    ⟨js "CC", .cc⟩, ⟨js "BCC", .bcc⟩, ⟨js "Subject", .subject⟩, ⟨js "SentDate", .sentDate⟩,
    ⟨js "ReceivedDate", .receivedDate⟩, ⟨js "DateCreated", .dateCreated⟩,
    ⟨js "DateModified", .dateModified⟩, ⟨js "TextPath", .textPath⟩,
    ⟨js "NativePath", .nativePath⟩, ⟨js "Tags", .tags⟩]

/-- `ProductionError` -/
structure ProductionError where
  message : JsString
  deriving DecidableEq

/-- The rows of a load file as texts: the headers, and the values of every record. -/
def textRows (profile : List DatFieldMapping) (multiValueSeparator : JsString)
    (records : List ProducedItemRecord) : List (List JsString) :=
  profile.map DatFieldMapping.loadFileField ::
    records.map fun record => profile.map fun f => recordValue record multiValueSeparator f.source

/-! ## Options -/

/-- `DatOptions` -/
structure DatOptions where
  fieldDelimiter : Option JsString
  quoteChar : Option JsString
  newlineSubstitute : Option JsString
  multiValueSeparator : Option JsString
  encoding : Option Encoding
  bom : Option Bool

/-- `ResolvedDatOptions`, with what `resolveOptions` has checked. -/
structure ResolvedDatOptions where
  fieldDelimiter : CodeUnit
  quoteChar : CodeUnit
  newlineSubstitute : JsString
  multiValueSeparator : JsString
  encoding : Encoding
  bom : Bool
  differ : fieldDelimiter ≠ quoteChar

/-- `resolveOptions` -/
def resolveOptions (options : DatOptions) : Except ProductionError ResolvedDatOptions :=
  match options.fieldDelimiter.getD [0x14], options.quoteChar.getD [0xFE] with
  | [fieldDelimiter], [quoteChar] =>
    if differ : fieldDelimiter = quoteChar then
      .error ⟨js "DAT fieldDelimiter and quoteChar must differ"⟩
    else .ok
      { fieldDelimiter
        quoteChar
        newlineSubstitute := options.newlineSubstitute.getD [0xAE]
        multiValueSeparator := options.multiValueSeparator.getD (js "; ")
        encoding := options.encoding.getD .utf8
        bom := options.bom.getD false
        differ }
  | _, _ => .error ⟨js "DAT fieldDelimiter and quoteChar must be single characters"⟩

/-! ## The file -/

/-- What a replacement text stands for, between `before` and `after` a match without groups. -/
def expandReplacement (before matched after : JsString) : JsString → JsString
  | 0x24 :: 0x24 :: rest => 0x24 :: expandReplacement before matched after rest
  | 0x24 :: 0x26 :: rest => matched ++ expandReplacement before matched after rest
  | 0x24 :: 0x60 :: rest => before ++ expandReplacement before matched after rest
  | 0x24 :: 0x27 :: rest => after ++ expandReplacement before matched after rest
  | c :: rest => c :: expandReplacement before matched after rest
  | [] => []

/-- `text.replace(/\r\n|\r|\n/g, replacement)`, from behind `before` on, where the replacement is
made by a function of the match and what stands before and behind it. -/
def replaceNewlines (replacement : JsString → JsString → JsString → JsString)
    (before : JsString) : JsString → JsString
  | 0x0D :: 0x0A :: rest => replacement before [0x0D, 0x0A] rest ++
      replaceNewlines replacement (before ++ [0x0D, 0x0A]) rest
  | 0x0D :: rest => replacement before [0x0D] rest ++
      replaceNewlines replacement (before ++ [0x0D]) rest
  | 0x0A :: rest => replacement before [0x0A] rest ++
      replaceNewlines replacement (before ++ [0x0A]) rest
  | c :: rest => c :: replaceNewlines replacement (before ++ [c]) rest
  | [] => []

namespace ResolvedDatOptions

variable (opts : ResolvedDatOptions)

/-- `sanitizeValue`, with newlines replaced in some way. -/
def sanitizeWith (replacement : JsString → JsString → JsString → JsString) (raw : JsString) :
    JsString :=
  (replaceNewlines replacement [] (raw.filter fun c => c ≠ opts.quoteChar)).map fun c =>
    if c = opts.fieldDelimiter then 0x20 else c

/-- `sanitizeValue` -/
def sanitizeValue : JsString → JsString :=
  opts.sanitizeWith fun before matched after =>
    expandReplacement before matched after opts.newlineSubstitute

/-- `wrap` -/
def wrap (v : JsString) : JsString :=
  opts.quoteChar :: (opts.sanitizeValue v ++ [opts.quoteChar])

/-- A line of the file. -/
def line (row : List JsString) : JsString := joinWith [opts.fieldDelimiter] (row.map opts.wrap)

/-- The text that is written. -/
def text (rows : List (List JsString)) : JsString :=
  let body := joinWith (js "\r\n") (rows.map opts.line) ++ js "\r\n"
  if opts.bom = true ∧ opts.encoding = .utf8 then 0xFEFF :: body else body

end ResolvedDatOptions

/-- `buildDatFile` -/
def buildDatFile (records : List ProducedItemRecord) (profile : List DatFieldMapping)
    (options : DatOptions) : Except ProductionError Buffer :=
  if profile = [] then .error ⟨js "DAT profile must contain at least one field"⟩
  else do
    let opts ← resolveOptions options
    pure (opts.encoding.encode (opts.text (textRows profile opts.multiValueSeparator records)))

/-! ## Reading the file -/

namespace ResolvedDatOptions

variable (opts : ResolvedDatOptions)

/-- The bytes of the field delimiter. -/
def delimiterBytes : Buffer := opts.encoding.encode [opts.fieldDelimiter]

/-- The bytes of the quote character. -/
def quoteBytes : Buffer := opts.encoding.encode [opts.quoteChar]

/-- A cell without its quotes. -/
def readCell (cell : Buffer) : Option JsString :=
  let q := opts.quoteBytes
  if q <+: cell ∧ q <:+ cell ∧ 2 * q.length ≤ cell.length then
    opts.encoding.decode ((cell.drop q.length).take (cell.length - 2 * q.length))
  else none

/-- The rows of a file, each ended by CRLF, and their cells. -/
def readDat (file : Buffer) : Option (List (List JsString)) :=
  let body := if opts.bom = true ∧ opts.encoding = .utf8 then file.drop 3 else file
  let rows := splitWord [0x0D, 0x0A] body
  if rows.getLast? = some [] then
    rows.dropLast.mapM fun row => (splitWord opts.delimiterBytes row).mapM opts.readCell
  else none

/-- What a cell is to say. -/
def expectedCell : JsString → JsString := opts.sanitizeWith fun _ _ _ => opts.newlineSubstitute

end ResolvedDatOptions

/-- **Readable.** Whatever options are accepted, the file that is built reads as one row for the
headers and one for every record, with the cells that are expected. -/
def DatReadable (records : List ProducedItemRecord) (profile : List DatFieldMapping)
    (options : DatOptions) : Prop :=
  ∀ opts file, resolveOptions options = .ok opts → buildDatFile records profile options = .ok file →
    opts.readDat file = some ((textRows profile opts.multiValueSeparator records).map fun row =>
      row.map opts.expectedCell)

/-! ## Literal substitutes -/

/-! ## A cell -/

section Cell

variable {opts : ResolvedDatOptions}

/-- The quote character as it is written. -/
def ResolvedDatOptions.writtenQuote (opts : ResolvedDatOptions) : JsString :=
  opts.encoding.written [opts.quoteChar]

/-- The text of a cell as it is to be written. -/
def ResolvedDatOptions.expectedWrap (opts : ResolvedDatOptions) (v : JsString) : JsString :=
  opts.writtenQuote ++ (opts.expectedCell v ++ opts.writtenQuote)

theorem meets_singleton_of_not_high {d : CodeUnit} (h : ¬ IsHighSurrogate d) (b : JsString) :
    Meets [d] b :=
  meets_of_last fun _ hc => Option.some.inj hc ▸ h

theorem meets_singleton_of_not_low {d : CodeUnit} (h : ¬ IsLowSurrogate d) (a : JsString) :
    Meets a [d] :=
  meets_of_head fun _ hc => Option.some.inj hc ▸ h

theorem encode_writtenQuote : opts.encoding.encode opts.writtenQuote = opts.quoteBytes :=
  opts.encoding.encode_written _

/-- A text in written quotes is written as the text between the bytes of the quotes. -/
theorem encode_quoted (v : JsString) :
    opts.encoding.encode (opts.writtenQuote ++ (v ++ opts.writtenQuote)) =
      opts.quoteBytes ++ (opts.encoding.encode v ++ opts.quoteBytes) := by
  obtain ⟨d, hd, hhigh, hlow⟩ := opts.encoding.exists_written_singleton opts.quoteChar
  have hquote : opts.writtenQuote = [d] := hd
  rw [← encode_writtenQuote, hquote,
    opts.encoding.encode_append (meets_singleton_of_not_high hhigh _),
    opts.encoding.encode_append (meets_singleton_of_not_low hlow _)]

theorem written_quoted (v : JsString) :
    opts.encoding.written (opts.writtenQuote ++ (v ++ opts.writtenQuote)) =
      opts.writtenQuote ++ (opts.encoding.written v ++ opts.writtenQuote) := by
  obtain ⟨d, hd, hhigh, hlow⟩ := opts.encoding.exists_written_singleton opts.quoteChar
  have hquote : opts.writtenQuote = [d] := hd
  have hself : opts.encoding.written [d] = [d] := by
    have hread := opts.encoding.decode_encode [opts.quoteChar]
    rw [hd] at hread
    exact opts.encoding.written_of_decode hread
  rw [hquote, opts.encoding.written_append (meets_singleton_of_not_high hhigh _),
    opts.encoding.written_append (meets_singleton_of_not_low hlow _), hself]

/-- A cell can be read if its bytes are those of a text between the bytes of the quotes. -/
theorem readCell_eq_some {cell : Buffer} {v : JsString} :
    opts.readCell cell = some v ↔
      ∃ bytes, cell = opts.quoteBytes ++ (bytes ++ opts.quoteBytes) ∧
        opts.encoding.decode bytes = some v := by
  rw [ResolvedDatOptions.readCell]
  refine ⟨?_, ?_⟩
  · intro h
    split at h
    · rename_i hquoted
      obtain ⟨⟨more, rfl⟩, hsuffix, hlength⟩ := hquoted
      rw [List.length_append] at hlength
      have hmore : opts.quoteBytes <:+ more :=
        List.suffix_of_suffix_length_le hsuffix (List.suffix_append _ _) (by omega)
      obtain ⟨bytes, rfl⟩ := hmore
      refine ⟨bytes, rfl, ?_⟩
      rw [List.drop_left, List.length_append, List.length_append] at h
      rwa [show opts.quoteBytes.length + (bytes.length + opts.quoteBytes.length) -
        2 * opts.quoteBytes.length = bytes.length by omega, List.take_left] at h
    · cases h
  · rintro ⟨bytes, rfl, hbytes⟩
    have hlength : (opts.quoteBytes ++ (bytes ++ opts.quoteBytes)).length =
        opts.quoteBytes.length + (bytes.length + opts.quoteBytes.length) := by
      rw [List.length_append, List.length_append]
    have hsuffix : opts.quoteBytes <:+ opts.quoteBytes ++ (bytes ++ opts.quoteBytes) := by
      rw [← List.append_assoc]
      exact List.suffix_append _ _
    have hlong : 2 * opts.quoteBytes.length ≤
        (opts.quoteBytes ++ (bytes ++ opts.quoteBytes)).length := by
      rw [hlength]
      omega
    rw [if_pos ⟨List.prefix_append _ _, hsuffix, hlong⟩, List.drop_left, hlength,
      show opts.quoteBytes.length + (bytes.length + opts.quoteBytes.length) -
        2 * opts.quoteBytes.length = bytes.length by omega, List.take_left, hbytes]

/-- A text that is written reads as a value exactly if what is left of it is the value in
written quotes. -/
theorem readCell_encode {text v : JsString} :
    opts.readCell (opts.encoding.encode text) = some v ↔
      opts.encoding.written text = opts.writtenQuote ++ (v ++ opts.writtenQuote) := by
  rw [readCell_eq_some]
  refine ⟨?_, ?_⟩
  · rintro ⟨bytes, htext, hbytes⟩
    rw [← opts.encoding.encode_of_decode hbytes, ← encode_quoted] at htext
    rw [opts.encoding.written_congr htext, written_quoted, opts.encoding.written_of_decode hbytes]
  · intro h
    refine ⟨opts.encoding.encode v, ?_, ?_⟩
    · rw [← opts.encoding.encode_written text, h, encode_quoted]
    · have htwice : opts.encoding.written (opts.encoding.written text) =
          opts.encoding.written text := opts.encoding.written_congr (opts.encoding.encode_written _)
      rw [h, written_quoted, List.append_right_inj, List.append_left_inj] at htwice
      rw [opts.encoding.decode_encode, htwice]

end Cell

/-! ## A row -/

section Row

variable {opts : ResolvedDatOptions}

/-- Unless delimiter and quote are written the same, they make no surrogate pair. -/
theorem not_both_surrogates (h : opts.delimiterBytes ≠ opts.quoteBytes)
    (hutf8 : opts.encoding = .utf8) :
    ¬ ((IsHighSurrogate opts.fieldDelimiter ∨ IsLowSurrogate opts.fieldDelimiter) ∧
      (IsHighSurrogate opts.quoteChar ∨ IsLowSurrogate opts.quoteChar)) := by
  rintro ⟨hdelimiter, hquote⟩
  refine h ?_
  have hlone : ∀ c : CodeUnit, IsHighSurrogate c ∨ IsLowSurrogate c →
      Encoding.utf8.encode [c] = utf8Bytes 0xFFFD := by
    intro c hc
    have hscalar : (CodePoint.unit c).scalar = 0xFFFD := (scalar_unit c).trans (if_pos hc)
    exact (List.append_nil _).trans (congrArg utf8Bytes hscalar)
  rw [ResolvedDatOptions.delimiterBytes, ResolvedDatOptions.quoteBytes, hutf8, hlone _ hdelimiter,
    hlone _ hquote]

/-- Cells in quotes and delimiters are written one after the other. -/
theorem encode_joinWith (h : opts.delimiterBytes ≠ opts.quoteBytes) {cells : List JsString}
    (hcells : ∀ cell ∈ cells, cell.head? = some opts.quoteChar ∧
      cell.getLast? = some opts.quoteChar) :
    opts.encoding.encode (joinWith [opts.fieldDelimiter] cells) =
      join opts.delimiterBytes (cells.map opts.encoding.encode) := by
  rcases cells with _ | ⟨first, rest⟩
  · exact opts.encoding.encode_nil
  induction rest generalizing first with
  | nil => rfl
  | cons second rest ih =>
    have hmeets : opts.encoding = .utf8 → Meets first
        ([opts.fieldDelimiter] ++ joinWith [opts.fieldDelimiter] (second :: rest)) ∧
        Meets [opts.fieldDelimiter] (joinWith [opts.fieldDelimiter] (second :: rest)) := by
      intro hutf8
      have hnot := not_both_surrogates h hutf8
      have hlast := (hcells first (List.mem_cons_self ..)).2
      have hhead : (joinWith [opts.fieldDelimiter] (second :: rest)).head? =
          some opts.quoteChar := by
        have hsecond := (hcells second (.tail _ (List.mem_cons_self ..))).1
        rw [joinWith, join_cons, List.head?_append, hsecond]
        rfl
      refine ⟨?_, ?_⟩
      · rintro c hc d hd ⟨hhigh, hlow⟩
        obtain rfl := Option.some.inj (hlast.symm.trans hc)
        obtain rfl := Option.some.inj hd
        exact hnot ⟨.inr hlow, .inl hhigh⟩
      · rintro c hc d hd ⟨hhigh, hlow⟩
        obtain rfl := Option.some.inj hc
        obtain rfl := Option.some.inj (hhead.symm.trans hd)
        exact hnot ⟨.inl hhigh, .inr hlow⟩
    have hjoin : joinWith [opts.fieldDelimiter] (first :: second :: rest) =
        first ++ ([opts.fieldDelimiter] ++ joinWith [opts.fieldDelimiter] (second :: rest)) := by
      rw [joinWith, join, List.append_assoc]
      rfl
    have happend : opts.encoding.encode (joinWith [opts.fieldDelimiter] (first :: second :: rest)) =
        opts.encoding.encode first ++ (opts.delimiterBytes ++
          opts.encoding.encode (joinWith [opts.fieldDelimiter] (second :: rest))) := by
      rw [hjoin]
      rcases hencoding : opts.encoding with _ | _
      · rw [← hencoding, opts.encoding.encode_append (hmeets hencoding).1,
          opts.encoding.encode_append (hmeets hencoding).2]
        rfl
      · rw [ResolvedDatOptions.delimiterBytes, hencoding]
        simp only [Encoding.encode, List.map_append]
    rw [happend, ih second fun cell hcell => hcells cell (.tail _ hcell)]
    exact (List.append_assoc _ _ _).symm

/-- What is written of a row that was split at the delimiter reads as its values exactly if every
cell does on its own and none contains the delimiter. -/
theorem readRow_iff (h : opts.delimiterBytes ≠ opts.quoteBytes) {row : List JsString}
    (hrow : row ≠ []) :
    (splitWord opts.delimiterBytes (opts.encoding.encode (opts.line row))).mapM opts.readCell =
        some (row.map opts.expectedCell) ↔
      ∀ v ∈ row, opts.encoding.written (opts.wrap v) = opts.expectedWrap v ∧
        ¬ opts.delimiterBytes <:+: opts.encoding.encode (opts.wrap v) := by
  have hne : opts.delimiterBytes ≠ [] := opts.encoding.encode_singleton_ne_nil _
  have hword : Unbordered opts.delimiterBytes := opts.encoding.unbordered_encode_singleton _
  have hwrap : ∀ cell ∈ row.map opts.wrap, cell.head? = some opts.quoteChar ∧
      cell.getLast? = some opts.quoteChar := by
    intro cell hcell
    obtain ⟨v, -, rfl⟩ := List.mem_map.mp hcell
    refine ⟨rfl, ?_⟩
    rw [ResolvedDatOptions.wrap, ← List.cons_append, List.getLast?_concat]
  have hsplit : splitWord opts.delimiterBytes (opts.encoding.encode (opts.line row)) =
      (row.map fun v => opts.encoding.encode (opts.wrap v)).flatMap
        (splitWord opts.delimiterBytes) := by
    rw [ResolvedDatOptions.line, encode_joinWith h hwrap, List.map_map,
      splitWord_join hword hne (fun hnil => hrow (List.map_eq_nil_iff.mp hnil))]
    rfl
  rw [hsplit]
  have hcells : (row.map fun v => opts.encoding.encode (opts.wrap v)).mapM opts.readCell =
        some (row.map opts.expectedCell) ↔
      ∀ v ∈ row, opts.encoding.written (opts.wrap v) = opts.expectedWrap v := by
    rw [mapM_eq_some_iff_forall₂, List.forall₂_map_left_iff, List.forall₂_map_right_iff,
      List.forall₂_same]
    exact forall₂_congr fun v _ => readCell_encode
  refine ⟨?_, ?_⟩
  · intro hread
    have hlength := (mapM_eq_some_iff_forall₂.mp hread).length_eq
    rw [List.length_map] at hlength
    have hfree := (length_flatMap_splitWord hword hne _).mp
      (hlength.trans (List.length_map fun v => opts.encoding.encode (opts.wrap v)).symm)
    rw [flatMap_splitWord_eq_self hfree] at hread
    exact fun v hv => ⟨hcells.mp hread v hv, hfree _ (List.mem_map_of_mem hv)⟩
  · intro hclean
    rw [flatMap_splitWord_eq_self]
    · exact hcells.mpr fun v hv => (hclean v hv).1
    · intro piece hpiece
      obtain ⟨v, hv, rfl⟩ := List.mem_map.mp hpiece
      exact (hclean v hv).2

end Row

/-! ## The whole file -/

section File

variable {opts : ResolvedDatOptions} {rows : List (List JsString)}

/-- Lines joined by a separator, with one more at the end, are lines that each end with it. -/
theorem joinWith_append_self {sep : JsString} {lines : List JsString} (h : lines ≠ []) :
    joinWith sep lines ++ sep = lines.flatMap fun line => line ++ sep := by
  obtain ⟨first, rest, rfl⟩ := List.exists_cons_of_ne_nil h
  clear h
  induction rest generalizing first with
  | nil => exact (List.append_nil _).symm
  | cons second rest ih =>
    rw [List.flatMap_cons, ← ih second, joinWith, join, List.append_assoc]
    rfl

/-- Lines are written one after the other, each with CRLF behind it. -/
theorem encode_lines (e : Encoding) (lines : List JsString) :
    e.encode (lines.flatMap fun line => line ++ js "\r\n") =
      (lines.map e.encode).flatMap fun line => line ++ [0x0D, 0x0A] := by
  have hbreak : e.encode (js "\r\n") = [0x0D, 0x0A] := by
    cases e <;> decide +kernel
  have hcr : ∀ c ∈ (js "\r\n").head?, ¬ IsLowSurrogate c := by
    intro c hc
    obtain rfl : unitOf '\r' = c := Option.some.inj hc
    decide
  have hlf : ∀ line : JsString, ∀ c ∈ (line ++ js "\r\n").getLast?, ¬ IsHighSurrogate c := by
    intro line c hc
    rw [List.getLast?_append_of_ne_nil _ (by decide)] at hc
    obtain rfl : unitOf '\n' = c := Option.some.inj hc
    decide
  induction lines with
  | nil => exact e.encode_nil
  | cons line lines ih =>
    rw [List.flatMap_cons, e.encode_append (meets_of_last (hlf line)),
      e.encode_append (meets_of_head hcr), hbreak, ih]
    rfl

/-- The bytes of a file behind its byte order mark. -/
theorem drop_encode_text (hrows : rows ≠ []) :
    (if opts.bom = true ∧ opts.encoding = .utf8 then
      (opts.encoding.encode (opts.text rows)).drop 3 else opts.encoding.encode (opts.text rows)) =
      (rows.map fun row => opts.encoding.encode (opts.line row)).flatMap
        fun line => line ++ [0x0D, 0x0A] := by
  have hbody : opts.encoding.encode (joinWith (js "\r\n") (rows.map opts.line) ++ js "\r\n") =
      (rows.map fun row => opts.encoding.encode (opts.line row)).flatMap
        fun line => line ++ [0x0D, 0x0A] := by
    rw [joinWith_append_self (fun h => hrows (List.map_eq_nil_iff.mp h)), encode_lines,
      List.map_map]
    rfl
  rw [ResolvedDatOptions.text]
  split
  · rename_i hbom
    have hmeets : Meets [0xFEFF] (joinWith (js "\r\n") (rows.map opts.line) ++ js "\r\n") :=
      meets_singleton_of_not_high (by decide) _
    have hmark : opts.encoding.encode [0xFEFF] = [0xEF, 0xBB, 0xBF] := by
      rw [hbom.2]
      decide +kernel
    rw [← List.singleton_append, opts.encoding.encode_append hmeets, hmark, hbody]
    rfl
  · exact hbody

/-- **A clean file.** Every cell in its quotes is, as it is written, what it is to be, and does not
contain the delimiter; no row contains CRLF. -/
structure Clean (opts : ResolvedDatOptions) (rows : List (List JsString)) : Prop where
  cells : ∀ row ∈ rows, ∀ v ∈ row, opts.encoding.written (opts.wrap v) = opts.expectedWrap v
  delimiters : ∀ row ∈ rows, ∀ v ∈ row,
    ¬ opts.delimiterBytes <:+: opts.encoding.encode (opts.wrap v)
  breaks : ∀ row ∈ rows, ¬ [0x0D, 0x0A] <:+: opts.encoding.encode (opts.line row)

/-- In a clean file delimiter and quote are written differently. -/
theorem Clean.differ (h : Clean opts rows) {row : List JsString} {v : JsString} (hrow : row ∈ rows)
    (hv : v ∈ row) : opts.delimiterBytes ≠ opts.quoteBytes := by
  intro heq
  refine h.delimiters row hrow v hv ?_
  rw [heq, ← opts.encoding.encode_written, h.cells row hrow v hv,
    ResolvedDatOptions.expectedWrap, encode_quoted]
  exact (List.prefix_append _ _).isInfix

/-- A cell that can be read was split off at a delimiter that is not the quote. -/
theorem differ_of_readCell {cell row : Buffer} {v : JsString}
    (hcell : cell ∈ splitWord opts.delimiterBytes row) (hread : opts.readCell cell = some v) :
    opts.delimiterBytes ≠ opts.quoteBytes := by
  intro heq
  obtain ⟨bytes, rfl, -⟩ := readCell_eq_some.mp hread
  have hprefix : opts.delimiterBytes <+: opts.quoteBytes ++ (bytes ++ opts.quoteBytes) := by
    rw [heq]
    exact List.prefix_append _ _
  exact not_infix_of_mem_splitWord (opts.encoding.encode_singleton_ne_nil _) hcell hprefix.isInfix

/-- Rows of cells that are written and read. -/
theorem readDat_iff (hrows : rows ≠ []) (hcells : ∀ row ∈ rows, row ≠ []) :
    opts.readDat (opts.encoding.encode (opts.text rows)) =
        some (rows.map fun row => row.map opts.expectedCell) ↔ Clean opts rows := by
  have hne : ([0x0D, 0x0A] : Buffer) ≠ [] := List.cons_ne_nil _ _
  have hword : Unbordered ([0x0D, 0x0A] : Buffer) := unbordered_of_not_mem (by decide)
  rw [ResolvedDatOptions.readDat, drop_encode_text hrows, splitWord_terminated hword hne,
    List.getLast?_concat, if_pos rfl, List.dropLast_concat]
  have hread : ((rows.map fun row => opts.encoding.encode (opts.line row)).mapM fun row =>
        (splitWord opts.delimiterBytes row).mapM opts.readCell) =
          some (rows.map fun row => row.map opts.expectedCell) ↔
      ∀ row ∈ rows, (splitWord opts.delimiterBytes (opts.encoding.encode (opts.line row))).mapM
        opts.readCell = some (row.map opts.expectedCell) := by
    rw [mapM_eq_some_iff_forall₂, List.forall₂_map_left_iff, List.forall₂_map_right_iff,
      List.forall₂_same]
  refine ⟨?_, ?_⟩
  · intro h
    have hlength := (mapM_eq_some_iff_forall₂.mp h).length_eq
    rw [List.length_map] at hlength
    have hfree := (length_flatMap_splitWord hword hne _).mp
      (hlength.trans (List.length_map fun row => opts.encoding.encode (opts.line row)).symm)
    rw [flatMap_splitWord_eq_self hfree] at h
    have hrow := hread.mp h
    have hdiffer : opts.delimiterBytes ≠ opts.quoteBytes := by
      obtain ⟨row, rest, rfl⟩ := List.exists_cons_of_ne_nil hrows
      obtain ⟨cell, pieces, hpieces⟩ := List.exists_cons_of_ne_nil
        (splitWord_ne_nil opts.delimiterBytes (opts.encoding.encode (opts.line row)))
      have hfirst := mapM_eq_some_iff_forall₂.mp (hrow row (List.mem_cons_self ..))
      rw [hpieces, List.forall₂_cons_left_iff] at hfirst
      obtain ⟨v, _, hv, -⟩ := hfirst
      exact differ_of_readCell (hpieces ▸ List.mem_cons_self ..) hv
    refine ⟨?_, ?_, fun row hmem => hfree _ (List.mem_map_of_mem hmem)⟩
    · exact fun row hmem v hv =>
        ((readRow_iff hdiffer (hcells row hmem)).mp (hrow row hmem) v hv).1
    · exact fun row hmem v hv =>
        ((readRow_iff hdiffer (hcells row hmem)).mp (hrow row hmem) v hv).2
  · intro h
    rw [flatMap_splitWord_eq_self, hread]
    · intro row hmem
      obtain ⟨v, hv⟩ := List.exists_mem_of_ne_nil row (hcells row hmem)
      exact (readRow_iff (h.differ hmem hv) (hcells row hmem)).mpr fun w hw =>
        ⟨h.cells row hmem w hw, h.delimiters row hmem w hw⟩
    · intro line hline
      obtain ⟨row, hmem, rfl⟩ := List.mem_map.mp hline
      exact h.breaks row hmem

end File

/-- **Load files.** The file that is built from some records can be read back exactly if the
options are refused or the rows make a clean file. -/
theorem datReadable_iff (records : List ProducedItemRecord) (profile : List DatFieldMapping)
    (options : DatOptions) :
    DatReadable records profile options ↔
      ∀ opts, profile ≠ [] → resolveOptions options = .ok opts →
        Clean opts (textRows profile opts.multiValueSeparator records) := by
  have hcells : ∀ opts : ResolvedDatOptions, profile ≠ [] →
      ∀ row ∈ textRows profile opts.multiValueSeparator records, row ≠ [] := by
    intro opts hprofile row hrow hnil
    rcases List.mem_cons.mp hrow with rfl | hrow
    · exact hprofile (List.map_eq_nil_iff.mp hnil)
    · obtain ⟨record, -, rfl⟩ := List.mem_map.mp hrow
      exact hprofile (List.map_eq_nil_iff.mp hnil)
  refine ⟨?_, ?_⟩
  · intro h opts hprofile hopts
    refine (readDat_iff (List.cons_ne_nil _ _) (hcells opts hprofile)).mp (h opts _ hopts ?_)
    rw [buildDatFile, if_neg hprofile, hopts]
    rfl
  · intro h opts file hopts hfile
    by_cases hprofile : profile = []
    · rw [buildDatFile, if_pos hprofile] at hfile
      cases hfile
    · rw [buildDatFile, if_neg hprofile, hopts] at hfile
      obtain rfl := Except.ok.inj hfile
      exact (readDat_iff (List.cons_ne_nil _ _) (hcells opts hprofile)).mpr (h opts hprofile hopts)

/-- A record of which only the custodian matters. -/
def recordOfCustodian (custodian : JsString) : ProducedItemRecord :=
  { begBates := js "ABC00000001"
    endBates := js "ABC00000001"
    begAttach := none
    endAttach := none
    custodian := some custodian
    sourcePath := none
    fileName := none
    extension := none
    mime := none
    sha256 := none
    fromAddresses := none
    toAddresses := none
    cc := none
    bcc := none
    subject := none
    sentDate := none
    receivedDate := none
    dateCreated := none
    dateModified := none
    textPath := none
    nativePath := none
    tags := [] }

/-- In Latin-1 the custodian U+0114 is written as the delimiter, 0x14. -/
theorem not_datReadable :
    ¬ DatReadable [recordOfCustodian [0x114]] [⟨js "Custodian", .custodian⟩]
      ⟨none, none, none, none, some .latin1, none⟩ := by
  intro h
  have hread := h ⟨0x14, 0xFE, [0xAE], js "; ", .latin1, false, by decide⟩ _ rfl rfl
  have hrows : ∀ row ∈ [[js "Custodian"], [[(0x114 : CodeUnit)]]], row ≠ [] := by
    intro row hrow
    fin_cases hrow <;> exact List.cons_ne_nil _ _
  have hclean := (readDat_iff (List.cons_ne_nil _ _) hrows).mp hread
  exact hclean.delimiters [[0x114]] (.tail _ (List.mem_cons_self ..)) [0x114]
    (List.mem_cons_self ..) (by decide)

end AegCloudDfir.Production
