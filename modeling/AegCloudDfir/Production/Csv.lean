import AegCloudDfir.Lib.Rfc4180
import AegCloudDfir.Production.Dat

/-!
# CSV load files

`buildCsvFile` of `packages/production/src/csv.ts`: the rows of a load file as comma-separated
values. A value that a spreadsheet would take for a formula gets an apostrophe in front; what has
a mark of the grammar in it then, or a tab, is quoted.

* `Guarded` — what a cell says of a value.
* `csv_readsBack` — read by the grammar, the file has one row for the headers and one for every
  record, and every cell is its guarded value.
-/

namespace AegCloudDfir.Production

open Rfc4180 (Marks parse parse_lines writeField writeFields)
open Traversal

/-- `CsvOptions` -/
structure CsvOptions where
  delimiter : Option JsString
  multiValueSeparator : Option JsString

/-- `FORMULA_TRIGGERS` -/
def formulaTriggers : List CodeUnit := [unitOf '=', unitOf '+', unitOf '-', unitOf '@', 0x09, 0x0D]

/-- The value begins like a formula. -/
def StartsFormula (value : JsString) : Prop := ∃ c ∈ value.head?, c ∈ formulaTriggers

instance (value : JsString) : Decidable (StartsFormula value) :=
  match value with
  | [] => isFalse fun h => nomatch h
  | c :: rest => decidable_of_iff (c ∈ formulaTriggers) ⟨fun h => ⟨c, rfl, h⟩, fun h => by
      obtain ⟨d, hd, h⟩ := h
      exact Option.some.inj hd ▸ h⟩

/-- A value with an apostrophe in front if it begins like a formula. -/
def guardFormula (value : JsString) : JsString :=
  if StartsFormula value then unitOf '\'' :: value else value

/-- What has to be quoted. -/
def needsQuotes (delimiter v : JsString) : Bool :=
  0x22 ∈ v ∨ delimiter <:+: v ∨ 0x0D ∈ v ∨ 0x0A ∈ v ∨ 0x09 ∈ v

/-- `csvEscape` -/
def csvEscape (value : JsString) (options : CsvOptions) : Except ProductionError JsString :=
  let delimiter := options.delimiter.getD (js ",")
  if delimiter.length ≠ 1 ∨ delimiter = js "\"" then
    .error ⟨js "CSV delimiter must be a single non-quote character, got \"" ++ delimiter ++ js "\""⟩
  else
    let v := guardFormula value
    if needsQuotes delimiter v then
      .ok (0x22 :: ((v.flatMap fun c => if c = 0x22 then [c, c] else [c]) ++ [0x22]))
    else .ok v

/-- A line of the file. -/
def csvLine (options : CsvOptions) (row : List JsString) : Except ProductionError JsString := do
  let cells ← row.mapM fun value => csvEscape value options
  pure (joinWith (options.delimiter.getD (js ",")) cells)

/-- `buildCsvFile` -/
def buildCsvFile (records : List ProducedItemRecord) (profile : List DatFieldMapping)
    (options : CsvOptions) : Except ProductionError JsString :=
  if profile = [] then .error ⟨js "CSV profile must contain at least one field"⟩
  else do
    let lines ← (textRows profile (options.multiValueSeparator.getD (js "; ")) records).mapM
      (csvLine options)
    pure (joinWith (js "\r\n") lines ++ js "\r\n")

/-! ## The grammar -/

/-- The delimiters that CSV files are read with. -/
def IsCsvDelimiter (d : CodeUnit) : Prop := d = unitOf ',' ∨ d = 0x09

/-- The marks of the grammar, with one of these delimiters. -/
def csvMarks (d : CodeUnit) (h : IsCsvDelimiter d) : Marks CodeUnit where
  quote := 0x22
  delimiter := d
  cr := 0x0D
  lf := 0x0A
  quote_ne_delimiter := by rcases h with rfl | rfl <;> decide
  quote_ne_cr := by decide
  quote_ne_lf := by decide
  delimiter_ne_cr := by rcases h with rfl | rfl <;> decide
  delimiter_ne_lf := by rcases h with rfl | rfl <;> decide
  cr_ne_lf := by decide

/-- `parse` from the beginning of a text. -/
def parseCsv (d : CodeUnit) (h : IsCsvDelimiter d) (text : JsString) :
    Option (List (List JsString)) :=
  parse (csvMarks d h) .start [] [] text

/-- What a cell says of a value: the value, with an apostrophe exactly if it begins like a
formula. -/
def Guarded (value cell : JsString) : Prop :=
  (StartsFormula value → cell = unitOf '\'' :: value) ∧ (¬ StartsFormula value → cell = value)

theorem guarded_guardFormula (value : JsString) : Guarded value (guardFormula value) :=
  ⟨fun h => if_pos h, fun h => if_neg h⟩

/-- A guarded value is no formula. -/
theorem not_startsFormula_guardFormula (value : JsString) :
    ¬ StartsFormula (guardFormula value) := by
  by_cases h : StartsFormula value
  · rw [guardFormula, if_pos h]
    rintro ⟨c, hc, hmem⟩
    obtain rfl := Option.some.inj hc
    exact absurd hmem (by decide)
  · rwa [guardFormula, if_neg h]

section Escape

variable {d : CodeUnit} {options : CsvOptions}

/-- What is not quoted has no mark. -/
theorem not_isMark_of_needsQuotes (hd : IsCsvDelimiter d) {v : JsString}
    (h : needsQuotes [d] v = false) : ∀ c ∈ v, ¬ (csvMarks d hd).IsMark c := by
  simp only [needsQuotes, decide_eq_false_iff_not, not_or] at h
  rintro c hc (rfl | rfl | rfl | rfl)
  · exact h.1 hc
  · obtain ⟨front, back, hv⟩ := List.append_of_mem hc
    exact h.2.1 ⟨front, back, by rw [hv, List.append_assoc]; rfl⟩
  · exact h.2.2.1 hc
  · exact h.2.2.2.1 hc

/-- A value is escaped as a field of the grammar. -/
theorem csvEscape_eq (hd : IsCsvDelimiter d) (hoptions : options.delimiter.getD (js ",") = [d])
    (value : JsString) :
    csvEscape value options = .ok (writeField (csvMarks d hd)
      (needsQuotes [d] (guardFormula value)) (guardFormula value)) := by
  have haccepted : ¬ (([d] : JsString).length ≠ 1 ∨ [d] = js "\"") := by
    rintro (h | h)
    · exact h rfl
    · exact (csvMarks d hd).quote_ne_delimiter (List.cons.inj h).1.symm
  rw [csvEscape, hoptions, if_neg haccepted]
  dsimp only
  cases needsQuotes [d] (guardFormula value) <;> rfl

/-- Cells with delimiters between them. -/
theorem joinWith_eq_writeFields (hd : IsCsvDelimiter d) (cells : List JsString) :
    joinWith [d] cells = writeFields (csvMarks d hd) cells := by
  rcases cells with _ | ⟨first, rest⟩
  · rfl
  induction rest generalizing first with
  | nil => rfl
  | cons second rest ih =>
    rw [writeFields, ← ih second, joinWith, PrefixCode.join, List.append_assoc]
    rfl

theorem csvLine_eq (hd : IsCsvDelimiter d) (hoptions : options.delimiter.getD (js ",") = [d])
    (row : List JsString) :
    csvLine options row = .ok (writeFields (csvMarks d hd) ((row.map guardFormula).map fun field =>
      writeField (csvMarks d hd) (needsQuotes [d] field) field)) := by
  rw [csvLine, mapM_eq_ok_map fun value _ => csvEscape_eq hd hoptions value, hoptions, List.map_map,
    ← joinWith_eq_writeFields hd]
  rfl

/-- The file that is built from rows. -/
theorem buildCsvFile_eq (records : List ProducedItemRecord) {profile : List DatFieldMapping}
    (hprofile : profile ≠ []) (hd : IsCsvDelimiter d)
    (hoptions : options.delimiter.getD (js ",") = [d]) :
    buildCsvFile records profile options = .ok
      (((textRows profile (options.multiValueSeparator.getD (js "; ")) records).map fun row =>
        row.map guardFormula).flatMap fun line => writeFields (csvMarks d hd) (line.map fun field =>
          writeField (csvMarks d hd) (needsQuotes [d] field) field) ++ [0x0D, 0x0A]) := by
  rw [buildCsvFile, if_neg hprofile, mapM_eq_ok_map fun row _ => csvLine_eq hd hoptions row]
  have hlines : (textRows profile (options.multiValueSeparator.getD (js "; ")) records).map
      (fun row => writeFields (csvMarks d hd) ((row.map guardFormula).map fun field =>
        writeField (csvMarks d hd) (needsQuotes [d] field) field)) ≠ [] := List.cons_ne_nil _ _
  refine congrArg Except.ok ?_
  rw [joinWith_append_self hlines, List.flatMap_map, List.flatMap_map]
  rfl

/-- Read by the grammar, the file has the guarded values. -/
theorem parseCsv_buildCsvFile (records : List ProducedItemRecord) {profile : List DatFieldMapping}
    (hprofile : profile ≠ []) (hd : IsCsvDelimiter d)
    (hoptions : options.delimiter.getD (js ",") = [d]) :
    ∃ text, buildCsvFile records profile options = .ok text ∧ parseCsv d hd text =
      some ((textRows profile (options.multiValueSeparator.getD (js "; ")) records).map fun row =>
        row.map guardFormula) := by
  refine ⟨_, buildCsvFile_eq records hprofile hd hoptions, ?_⟩
  refine parse_lines (fun field => not_isMark_of_needsQuotes hd) ?_
  intro line hline
  obtain ⟨row, hrow, rfl⟩ := List.mem_map.mp hline
  intro hnil
  have hempty : row = [] := List.map_eq_nil_iff.mp hnil
  rcases List.mem_cons.mp hrow with rfl | hrow
  · exact hprofile (List.map_eq_nil_iff.mp hempty)
  · obtain ⟨record, -, rfl⟩ := List.mem_map.mp hrow
    exact hprofile (List.map_eq_nil_iff.mp hempty)

end Escape

/-- **CSV files are read back, and inert.** By the grammar of RFC 4180 the file of some records, in
columns of which there are at least two, has one row for the headers and one for every record; each
has a cell for every column, which is the value, guarded if it begins like a formula; and no cell
begins like one. -/
theorem csv_readsBack (records : List ProducedItemRecord) (profile : List DatFieldMapping)
    (options : CsvOptions) (d : CodeUnit) (hd : IsCsvDelimiter d)
    (hoptions : options.delimiter.getD (js ",") = [d]) (hprofile : 2 ≤ profile.length) :
    ∃ text rows, buildCsvFile records profile options = .ok text ∧
      parseCsv d hd text = some rows ∧ rows.length = records.length + 1 ∧
      (∀ row ∈ rows, row.length = profile.length) ∧
      List.Forall₂ (List.Forall₂ Guarded)
        (textRows profile (options.multiValueSeparator.getD (js "; ")) records) rows ∧
      ∀ row ∈ rows, ∀ cell ∈ row, ¬ StartsFormula cell := by
  have hne : profile ≠ [] := by
    rintro rfl
    exact absurd hprofile (by decide)
  obtain ⟨text, htext, hparse⟩ := parseCsv_buildCsvFile records hne hd hoptions
  refine ⟨text, _, htext, hparse, ?_, ?_, ?_, ?_⟩
  · rw [List.length_map, textRows, List.length_cons, List.length_map]
  · intro row hrow
    obtain ⟨values, hvalues, rfl⟩ := List.mem_map.mp hrow
    rw [List.length_map]
    rcases List.mem_cons.mp hvalues with rfl | hvalues
    · exact List.length_map _
    · obtain ⟨record, -, rfl⟩ := List.mem_map.mp hvalues
      exact List.length_map _
  · rw [List.forall₂_map_right_iff, List.forall₂_same]
    intro row _
    rw [List.forall₂_map_right_iff, List.forall₂_same]
    exact fun value _ => guarded_guardFormula value
  · intro row hrow cell hcell
    obtain ⟨values, -, rfl⟩ := List.mem_map.mp hrow
    obtain ⟨value, -, rfl⟩ := List.mem_map.mp hcell
    exact not_startsFormula_guardFormula value

/-- A formula in the second of two columns, with commas. -/
theorem csv_readsBack_formula :
    ∃ text rows, buildCsvFile [recordOfCustodian (js "=1,\"2\"")]
        [⟨js "BegBates", .begBates⟩, ⟨js "Custodian", .custodian⟩] ⟨none, none⟩ = .ok text ∧
      parseCsv (unitOf ',') (.inl rfl) text = some rows ∧ rows.length = 1 + 1 ∧
      (∀ row ∈ rows, row.length = 2) ∧
      List.Forall₂ (List.Forall₂ Guarded)
        [[js "BegBates", js "Custodian"], [js "ABC00000001", js "=1,\"2\""]] rows ∧
      ∀ row ∈ rows, ∀ cell ∈ row, ¬ StartsFormula cell :=
  csv_readsBack [recordOfCustodian (js "=1,\"2\"")]
    [⟨js "BegBates", .begBates⟩, ⟨js "Custodian", .custodian⟩] ⟨none, none⟩ (unitOf ',') (.inl rfl)
    rfl (by decide)

end AegCloudDfir.Production
