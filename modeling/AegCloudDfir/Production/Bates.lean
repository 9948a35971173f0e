import AegCloudDfir.Js.Text

/-!
# Bates numbers

`packages/production/src/bates.ts` and `batesConfig` of
`packages/contracts/src/productions.ts`: how a number is written, and the counter
that hands out numbers to the documents of one production run.

Numbers are natural numbers here. Whatever `formatBates` accepts has at most twelve
digits, and JavaScript's numbers are exact there.
-/

namespace AegCloudDfir.Production

/-- `numbering`. -/
inductive Numbering : Type where
  | perPage
  | perDocument
  deriving DecidableEq

/-- `[A-Za-z0-9_-]`. -/
def isLabelUnit (c : CodeUnit) : Bool :=
  (0x41 ≤ c ∧ c ≤ 0x5A) ∨ (0x61 ≤ c ∧ c ≤ 0x7A) ∨ (0x30 ≤ c ∧ c ≤ 0x39) ∨ c = 0x5F ∨ c = 0x2D

/-- `batesConfig`: what the contract admits. -/
structure BatesConfig where
  batesPrefix : JsString
  startNumber : ℕ
  digits : ℕ
  suffix : JsString
  numbering : Numbering
  batesPrefix_units : batesPrefix.all isLabelUnit
  batesPrefix_length : batesPrefix.length ≤ 20
  start_pos : 1 ≤ startNumber
  four_le_digits : 4 ≤ digits
  digits_le : digits ≤ 12
  suffix_units : suffix.all isLabelUnit
  suffix_length : suffix.length ≤ 10

/-- The parts of a configuration that decide how a number is written. -/
structure BatesStyle where
  batesPrefix : JsString
  digits : ℕ
  suffix : JsString
  deriving DecidableEq

/-- How a configuration writes numbers. -/
def BatesConfig.style (config : BatesConfig) : BatesStyle :=
  ⟨config.batesPrefix, config.digits, config.suffix⟩

/-- `ProductionError` and `BatesOverflowError`. -/
inductive BatesError : Type where
  | production (message : JsString)
  | overflow (message : JsString)
  deriving DecidableEq

/-- A number padded to the width of a style. -/
def BatesStyle.label (style : BatesStyle) (n : ℕ) : JsString :=
  style.batesPrefix ++ paddedDecimal style.digits n ++ style.suffix

/-- `formatBates`. -/
def formatBates (style : BatesStyle) (n : ℕ) : Except BatesError JsString :=
  if n < 1 then
    .error (.production (js "bates number must be a positive integer, got " ++ decimal n))
  else if (decimal n).length > style.digits then
    .error (.overflow (js "bates number " ++ decimal n ++ js " exceeds the configured width of " ++
      decimal style.digits ++ js " digits (prefix \"" ++ style.batesPrefix ++ js "\")"))
  else .ok (style.label n)

/-! ## The counter -/

/-- `DocumentBatesRange`. -/
structure DocumentBatesRange where
  begBates : JsString
  endBates : JsString
  numbersUsed : ℕ

/-- `BatesCounter`. -/
structure BatesCounter where
  style : BatesStyle
  numbering : Numbering
  next : ℕ

/-- The constructor of `BatesCounter`; it fails fast if the start overflows. -/
def BatesCounter.new (style : BatesStyle) (numbering : Numbering) (startNumber : ℕ) :
    Except BatesError BatesCounter := do
  if startNumber < 1 then
    .error (.production (js "startNumber must be a positive integer, got " ++
      decimal startNumber))
  else do
    let _ ← formatBates style startNumber
    .ok ⟨style, numbering, startNumber⟩

/-- `numbersUsed` of a document with `pageCount` pages. -/
def Numbering.numbersUsed (numbering : Numbering) (pageCount : ℕ) : ℕ :=
  match numbering with
  | .perPage => pageCount
  | .perDocument => 1

/-- `nextDocument`: the range of a document, and the counter behind it. -/
def BatesCounter.nextDocument (counter : BatesCounter) (pageCount : ℕ) :
    Except BatesError (DocumentBatesRange × BatesCounter) := do
  if pageCount < 1 then
    .error (.production (js "pageCount must be a positive integer, got " ++ decimal pageCount))
  else do
    let numbersUsed := counter.numbering.numbersUsed pageCount
    -- the end first: an overflow throws before anything is consumed
    let endBates ← formatBates counter.style (counter.next + numbersUsed - 1)
    let begBates ← formatBates counter.style counter.next
    .ok (⟨begBates, endBates, numbersUsed⟩, { counter with next := counter.next + numbersUsed })

/-! ## Labels -/

/-- A number a style can write. -/
def BatesStyle.Fits (style : BatesStyle) (n : ℕ) : Prop := 1 ≤ n ∧ n < 10 ^ style.digits

theorem formatBates_ok {style : BatesStyle} {n : ℕ} {label : JsString}
    (hdigits : 0 < style.digits) (h : formatBates style n = .ok label) :
    style.Fits n ∧ label = style.label n := by
  rw [formatBates] at h
  split_ifs at h with hpos hlength
  cases h
  refine ⟨⟨Nat.le_of_not_lt hpos, ?_⟩, rfl⟩
  exact (length_decimal_le_iff hdigits).mp (Nat.le_of_not_lt hlength)

/-- In one style, different numbers are written differently. -/
theorem BatesStyle.label_injective (style : BatesStyle) : Function.Injective style.label := by
  intro m n h
  rw [label, label, List.append_assoc, List.append_assoc, List.append_right_inj,
    List.append_left_inj] at h
  exact paddedDecimal_injective _ h

/-- What a document is given: numbers the style can write, taken from the counter. -/
theorem BatesCounter.nextDocument_ok {counter after : BatesCounter} {pageCount : ℕ}
    {range : DocumentBatesRange} (hdigits : 0 < counter.style.digits)
    (h : counter.nextDocument pageCount = .ok (range, after)) :
    after = { counter with next := counter.next + range.numbersUsed } ∧
      range.numbersUsed = counter.numbering.numbersUsed pageCount ∧ 1 ≤ range.numbersUsed ∧
      range.begBates = counter.style.label counter.next ∧
      range.endBates = counter.style.label (counter.next + range.numbersUsed - 1) ∧
      ∀ n, counter.next ≤ n → n < counter.next + range.numbersUsed → counter.style.Fits n := by
  rw [nextDocument] at h
  by_cases hpages : pageCount < 1
  · rw [if_pos hpages] at h
    cases h
  rw [if_neg hpages] at h
  dsimp only at h
  rcases hend : formatBates counter.style
      (counter.next + counter.numbering.numbersUsed pageCount - 1) with e | endBates
  · rw [hend] at h
    cases h
  rcases hbeg : formatBates counter.style counter.next with e | begBates
  · rw [hend, hbeg] at h
    cases h
  rw [hend, hbeg] at h
  cases h
  obtain ⟨hendFits, rfl⟩ := formatBates_ok hdigits hend
  obtain ⟨hbegFits, rfl⟩ := formatBates_ok hdigits hbeg
  have hused : 1 ≤ counter.numbering.numbersUsed pageCount := by
    cases counter.numbering with
    | perPage => exact Nat.le_of_not_lt hpages
    | perDocument => exact Nat.le_refl 1
  refine ⟨rfl, rfl, hused, rfl, rfl, fun n hn hlt => ⟨hbegFits.1.trans hn, ?_⟩⟩
  exact Nat.lt_of_le_of_lt (Nat.le_sub_one_of_lt hlt) hendFits.2

theorem BatesCounter.new_ok {style : BatesStyle} {numbering : Numbering} {startNumber : ℕ}
    {counter : BatesCounter} (h : BatesCounter.new style numbering startNumber = .ok counter) :
    counter = ⟨style, numbering, startNumber⟩ := by
  rw [new] at h
  by_cases hpos : startNumber < 1
  · rw [if_pos hpos] at h
    cases h
  rw [if_neg hpos] at h
  rcases hformat : formatBates style startNumber with e | label
  · rw [hformat] at h
    cases h
  · rw [hformat] at h
    cases h
    rfl

/-- Eight digits behind `ABC`, numbered page by page. -/
def pageNumbers (startNumber : ℕ) (hpos : 1 ≤ startNumber) : BatesConfig where
  batesPrefix := js "ABC"
  startNumber
  digits := 8
  suffix := []
  numbering := .perPage
  batesPrefix_units := by decide
  batesPrefix_length := by decide
  start_pos := hpos
  four_le_digits := by decide
  digits_le := by decide
  suffix_units := rfl
  suffix_length := by decide

end AegCloudDfir.Production
