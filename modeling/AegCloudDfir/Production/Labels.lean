import AegCloudDfir.Production.Bates

/-!
# Bates labels, both ways

`parseBates` of `packages/production/src/bates.ts` reads what `formatBates` writes; and a
`BatesCounter` hands out the numbers of a run, call after call.

* `parseDecimal_lt_iff` — strings of digits of one length are ordered as their numbers.
* `parseBates_eq_ok_iff` — what is read is what is written.
* `numbers_documents` — a sequence of calls hands out numbers without a gap.
* `batesSound` — all that is promised of a style.
-/

namespace AegCloudDfir.Production

/-! ## Reading a label -/

/-- `BatesParseError` -/
structure BatesParseError where
  message : JsString
  deriving DecidableEq

/-- `a.endsWith(p)` -/
def endsWith (a p : JsString) : Bool := p.isSuffixOf a

/-- `s.slice(start, end)` of positions that are not negative. -/
def slice (s : JsString) (start stop : ℕ) : JsString := (s.take stop).drop start

/-- `"…"` -/
def quoted (s : JsString) : JsString := js "\"" ++ s ++ js "\""

/-- `parseBates` -/
def parseBates (style : BatesStyle) (s : JsString) : Except BatesParseError ℕ :=
  if ¬ startsWith s style.batesPrefix then
    .error ⟨quoted s ++ js " does not start with prefix " ++ quoted style.batesPrefix⟩
  else if style.suffix.length > 0 ∧ ¬ endsWith s style.suffix then
    .error ⟨quoted s ++ js " does not end with suffix " ++ quoted style.suffix⟩
  else
    let middle := slice s style.batesPrefix.length (s.length - style.suffix.length)
    if middle.length ≠ style.digits then
      .error ⟨quoted s ++ js " has a " ++ decimal middle.length ++
        js "-character numeric part, expected " ++ decimal style.digits⟩
    else if ¬ (middle ≠ [] ∧ ∀ c ∈ middle, IsDigit c) then
      .error ⟨quoted s ++ js " numeric part " ++ quoted middle ++ js " contains non-digits"⟩
    else
      let n := parseDecimal middle
      if n < 1 then
        .error ⟨quoted s ++ js " parses to non-positive bates number " ++ decimal n⟩
      else .ok n

/-! ## Digits -/

theorem foldl_digits (s : JsString) (n : ℕ) :
    s.foldl (fun n c => 10 * n + (c.val - 0x30)) n = n * 10 ^ s.length + parseDecimal s := by
  induction s generalizing n with
  | nil => simp [parseDecimal]
  | cons c s ih =>
    rw [parseDecimal, List.foldl_cons, List.foldl_cons, ih, ih (10 * 0 + (c.val - 0x30)),
      List.length_cons, pow_succ]
    ring

theorem parseDecimal_cons (c : CodeUnit) (s : JsString) :
    parseDecimal (c :: s) = (c.val - 0x30) * 10 ^ s.length + parseDecimal s := by
  rw [parseDecimal, List.foldl_cons, foldl_digits, Nat.mul_zero, Nat.zero_add]

/-- A digit is less than ten. -/
theorem val_lt_of_isDigit {c : CodeUnit} (h : IsDigit c) : c.val - 0x30 < 10 := by
  have hle : c.val ≤ 0x39 := h.2
  omega

theorem parseDecimal_lt_pow {s : JsString} (hs : ∀ c ∈ s, IsDigit c) :
    parseDecimal s < 10 ^ s.length := by
  induction s with
  | nil => exact Nat.one_pos
  | cons c s ih =>
    obtain ⟨hc, hs⟩ := List.forall_mem_cons.mp hs
    have hdigit := val_lt_of_isDigit hc
    have hrest := ih hs
    rw [parseDecimal_cons, List.length_cons, pow_succ]
    nlinarith

/-- **Strings of digits of one length** are ordered as their numbers. -/
theorem parseDecimal_lt_iff {s t : JsString} (hs : ∀ c ∈ s, IsDigit c) (ht : ∀ c ∈ t, IsDigit c)
    (hlength : s.length = t.length) : parseDecimal s < parseDecimal t ↔ s < t := by
  induction s generalizing t with
  | nil =>
    obtain rfl := List.length_eq_zero_iff.mp hlength.symm
    exact iff_of_false (Nat.lt_irrefl _) (lt_irrefl _)
  | cons c s ih =>
    obtain ⟨d, t, rfl⟩ := List.exists_cons_of_length_eq_add_one hlength.symm
    obtain ⟨hc, hs⟩ := List.forall_mem_cons.mp hs
    obtain ⟨hd, ht⟩ := List.forall_mem_cons.mp ht
    have hlength : s.length = t.length := Nat.succ.inj hlength
    have hs' := parseDecimal_lt_pow hs
    have ht' := parseDecimal_lt_pow ht
    have hc' : 0x30 ≤ c.val := hc.1
    have hd' : 0x30 ≤ d.val := hd.1
    rw [parseDecimal_cons, parseDecimal_cons, List.cons_lt_cons_iff, ← ih hs ht hlength, hlength]
    rw [hlength] at hs'
    rcases Nat.lt_trichotomy c.val d.val with hlt | heq | hgt
    · -- the first digit decides
      have hstep : (c.val - 0x30 + 1) * 10 ^ t.length ≤ (d.val - 0x30) * 10 ^ t.length :=
        Nat.mul_le_mul_right _ (by omega)
      refine iff_of_true ?_ (.inl hlt)
      nlinarith
    · obtain rfl : c = d := Fin.ext heq
      simp
    · have hstep : (d.val - 0x30 + 1) * 10 ^ t.length ≤ (c.val - 0x30) * 10 ^ t.length :=
        Nat.mul_le_mul_right _ (by omega)
      refine iff_of_false (by nlinarith) ?_
      rintro (hlt | ⟨rfl, -⟩)
      · exact Nat.lt_asymm hgt hlt
      · exact Nat.lt_irrefl _ hgt

/-- Digits can be read in one way only. -/
theorem eq_of_parseDecimal {s t : JsString} (hs : ∀ c ∈ s, IsDigit c) (ht : ∀ c ∈ t, IsDigit c)
    (hlength : s.length = t.length) (h : parseDecimal s = parseDecimal t) : s = t := by
  rcases lt_trichotomy s t with hlt | heq | hgt
  · exact absurd ((parseDecimal_lt_iff hs ht hlength).mpr hlt) (h ▸ Nat.lt_irrefl _)
  · exact heq
  · exact absurd ((parseDecimal_lt_iff ht hs hlength.symm).mpr hgt) (h ▸ Nat.lt_irrefl _)

/-- Reading undoes padding. -/
@[simp] theorem parseDecimal_paddedDecimal (width n : ℕ) :
    parseDecimal (paddedDecimal width n) = n := by
  rw [paddedDecimal, parseDecimal_padStartZero, parseDecimal_decimal]

/-- What is the same in front or behind does not matter to the order. -/
theorem append_lt_append_iff {front back s t : JsString} (hlength : s.length = t.length) :
    front ++ s ++ back < front ++ t ++ back ↔ s < t := by
  have hfront (x y : JsString) : front ++ x < front ++ y ↔ x < y := by
    induction front with
    | nil => rfl
    | cons c front ih => simpa [List.cons_lt_cons_iff] using ih
  rw [List.append_assoc, List.append_assoc, hfront]
  clear hfront
  induction s generalizing t with
  | nil =>
    obtain rfl := List.length_eq_zero_iff.mp hlength.symm
    exact iff_of_false (lt_irrefl _) (lt_irrefl _)
  | cons c s ih =>
    obtain ⟨d, t, rfl⟩ := List.exists_cons_of_length_eq_add_one hlength.symm
    rw [List.cons_append, List.cons_append, List.cons_lt_cons_iff, List.cons_lt_cons_iff]
    exact or_congr_right (and_congr_right fun _ => ih (Nat.succ.inj hlength))

/-! ## Both ways -/

section Style

variable {style : BatesStyle}

/-- A style that has no digits writes nothing. -/
theorem formatBates_eq_ok_iff {n : ℕ} {label : JsString} :
    formatBates style n = .ok label ↔
      1 ≤ n ∧ (decimal n).length ≤ style.digits ∧ label = style.label n := by
  rw [formatBates]
  split_ifs with hpos hlength
  · simp [Nat.not_le.mpr hpos]
  · simp [Nat.not_le.mpr hlength]
  · rw [Except.ok.injEq, eq_comm]
    exact ⟨fun h => ⟨Nat.le_of_not_lt hpos, Nat.le_of_not_lt hlength, h⟩, fun h => h.2.2⟩

/-- The checks of `parseBates` leave the parts of a label. -/
theorem parseBates_eq_ok {n : ℕ} {s : JsString} (h : parseBates style s = .ok n) :
    ∃ middle, s = style.batesPrefix ++ middle ++ style.suffix ∧ middle.length = style.digits ∧
      middle ≠ [] ∧ (∀ c ∈ middle, IsDigit c) ∧ n = parseDecimal middle ∧ 1 ≤ n := by
  rw [parseBates] at h
  dsimp only at h
  split_ifs at h with hstart hend hlength hdigits hpos
  obtain ⟨hne, hdigits⟩ := hdigits
  obtain rfl := Except.ok.inj h
  have hbegins : style.batesPrefix <+: s := List.isPrefixOf_iff_prefix.mp hstart
  have hsuffix : style.suffix <:+ s := by
    by_cases hempty : style.suffix = []
    · exact hempty ▸ List.nil_suffix
    · refine List.isSuffixOf_iff_suffix.mp (not_not.mp fun hnot => hend ⟨?_, hnot⟩)
      exact List.length_pos_iff.mpr hempty
  obtain ⟨front, rfl⟩ := hsuffix
  have hslice : slice (front ++ style.suffix) style.batesPrefix.length
      ((front ++ style.suffix).length - style.suffix.length) =
        front.drop style.batesPrefix.length := by
    rw [slice, List.length_append, Nat.add_sub_cancel, List.take_left]
  rw [hslice] at hlength hne hdigits hpos ⊢
  -- the middle is not empty, so the prefix ends before the suffix begins
  have hle : style.batesPrefix.length ≤ front.length := by
    by_contra hnot
    exact hne (List.drop_eq_nil_of_le (Nat.le_of_not_le hnot))
  obtain ⟨middle, rfl⟩ := List.prefix_of_prefix_length_le hbegins (List.prefix_append _ _) hle
  rw [List.drop_left] at hlength hne hdigits hpos ⊢
  exact ⟨middle, rfl, not_not.mp hlength, hne, hdigits, rfl, Nat.le_of_not_lt hpos⟩

/-- **What is read is what is written.** -/
theorem parseBates_eq_ok_iff {n : ℕ} {s : JsString} :
    parseBates style s = .ok n ↔ formatBates style n = .ok s := by
  rw [formatBates_eq_ok_iff]
  refine ⟨fun h => ?_, ?_⟩
  · obtain ⟨middle, rfl, hlength, hne, hdigits, rfl, hpos⟩ := parseBates_eq_ok h
    have hwidth : 0 < style.digits := hlength ▸ List.length_pos_iff.mpr hne
    have hfits : (decimal (parseDecimal middle)).length ≤ style.digits :=
      (length_decimal_le_iff hwidth).mpr (hlength ▸ parseDecimal_lt_pow hdigits)
    refine ⟨hpos, hfits, ?_⟩
    rw [BatesStyle.label]
    congr 2
    refine eq_of_parseDecimal hdigits (fun _ => isDigit_of_mem_paddedDecimal) ?_ ?_
    · rw [paddedDecimal, length_padStartZero hfits, hlength]
    · rw [parseDecimal_paddedDecimal]
  · rintro ⟨hpos, hfits, rfl⟩
    have hlength : (paddedDecimal style.digits n).length = style.digits :=
      length_padStartZero hfits
    have hslice : slice (style.label n) style.batesPrefix.length
        ((style.label n).length - style.suffix.length) = paddedDecimal style.digits n := by
      rw [slice, BatesStyle.label, List.length_append, Nat.add_sub_cancel, List.take_left,
        List.drop_left]
    have hstart : startsWith (style.label n) style.batesPrefix := by
      rw [startsWith, List.isPrefixOf_iff_prefix, BatesStyle.label, List.append_assoc]
      exact List.prefix_append _ _
    have hend : endsWith (style.label n) style.suffix :=
      List.isSuffixOf_iff_suffix.mpr (List.suffix_append _ _)
    have hdigits : paddedDecimal style.digits n ≠ [] ∧
        ∀ c ∈ paddedDecimal style.digits n, IsDigit c :=
      ⟨paddedDecimal_ne_nil _ _, fun _ => isDigit_of_mem_paddedDecimal⟩
    rw [parseBates, if_neg (not_not.mpr hstart), if_neg (fun h => h.2 hend)]
    simp only [hslice, hlength, parseDecimal_paddedDecimal]
    rw [if_neg (not_not.mpr rfl), if_neg (not_not.mpr hdigits), if_neg (Nat.not_lt.mpr hpos)]

/-- Labels of one style are ordered as their numbers. -/
theorem formatBates_lt_iff {m n : ℕ} {a b : JsString} (ha : formatBates style m = .ok a)
    (hb : formatBates style n = .ok b) : a < b ↔ m < n := by
  obtain ⟨-, hm, rfl⟩ := formatBates_eq_ok_iff.mp ha
  obtain ⟨-, hn, rfl⟩ := formatBates_eq_ok_iff.mp hb
  have hlength : (paddedDecimal style.digits m).length = (paddedDecimal style.digits n).length := by
    rw [paddedDecimal, paddedDecimal, length_padStartZero hm, length_padStartZero hn]
  rw [BatesStyle.label, BatesStyle.label, append_lt_append_iff hlength,
    ← parseDecimal_lt_iff (fun _ => isDigit_of_mem_paddedDecimal)
      (fun _ => isDigit_of_mem_paddedDecimal) hlength,
    parseDecimal_paddedDecimal, parseDecimal_paddedDecimal]

end Style

/-! ## A run of calls -/

/-- `nextDocument`, statement by statement -/
def BatesCounter.call (pageCount : ℕ) :
    StateM BatesCounter (Except BatesError DocumentBatesRange) := do
  let counter ← get
  if pageCount < 1 then
    return .error
      (.production (js "pageCount must be a positive integer, got " ++ decimal pageCount))
  else
    let numbersUsed := counter.numbering.numbersUsed pageCount
    match formatBates counter.style (counter.next + numbersUsed - 1) with
    | .error e => return .error e
    | .ok endBates =>
      match formatBates counter.style counter.next with
      | .error e => return .error e
      | .ok begBates =>
        modify fun counter => { counter with next := counter.next + numbersUsed }
        return .ok ⟨begBates, endBates, numbersUsed⟩

/-- Calls one after another: what each returns or throws, and the counter after them. -/
def BatesCounter.documents :
    List ℕ → BatesCounter → List (Except BatesError DocumentBatesRange) × BatesCounter
  | [], counter => ([], counter)
  | pageCount :: pageCounts, counter =>
    let (result, counter) := (BatesCounter.call pageCount).run counter
    let (results, counter) := documents pageCounts counter
    (result :: results, counter)

/-- The calls that return. -/
def granted (results : List (Except BatesError DocumentBatesRange)) : List DocumentBatesRange :=
  results.filterMap Except.toOption

/-- The numbers of a range, read off its labels. -/
def DocumentBatesRange.numbers (style : BatesStyle) (range : DocumentBatesRange) : List ℕ :=
  match parseBates style range.begBates, parseBates style range.endBates with
  | .ok first, .ok last => List.range' first (last + 1 - first)
  | _, _ => []

section Runs

variable {counter : BatesCounter}

/-- A call is `nextDocument`, and if that throws the counter is as it was. -/
theorem call_run (pageCount : ℕ) :
    (BatesCounter.call pageCount).run counter =
      match counter.nextDocument pageCount with
      | .ok (range, after) => (.ok range, after)
      | .error e => (.error e, counter) := by
  rw [BatesCounter.nextDocument]
  by_cases hpages : pageCount < 1
  · simp [BatesCounter.call, hpages]
    rfl
  · rcases hend : formatBates counter.style
        (counter.next + counter.numbering.numbersUsed pageCount - 1) with e | endBates
    · simp [BatesCounter.call, hpages, hend]
      rfl
    · rcases hbeg : formatBates counter.style counter.next with e | begBates
      · simp [BatesCounter.call, hpages, hend, hbeg]
        rfl
      · simp [BatesCounter.call, hpages, hend, hbeg]
        rfl

/-- A call that returns has labels for its numbers, and takes them from the counter. -/
theorem nextDocument_labels {pageCount : ℕ} {range : DocumentBatesRange} {after : BatesCounter}
    (h : counter.nextDocument pageCount = .ok (range, after)) :
    formatBates counter.style counter.next = .ok range.begBates ∧
      formatBates counter.style (counter.next + range.numbersUsed - 1) = .ok range.endBates ∧
      1 ≤ range.numbersUsed ∧
      after = { counter with next := counter.next + range.numbersUsed } := by
  rw [BatesCounter.nextDocument] at h
  by_cases hpages : pageCount < 1
  · rw [if_pos hpages] at h
    cases h
  rw [if_neg hpages] at h
  obtain ⟨endBates, hend, h⟩ := bind_eq_ok.mp h
  obtain ⟨begBates, hbeg, h⟩ := bind_eq_ok.mp h
  obtain ⟨rfl, rfl⟩ := Prod.mk.inj (Except.ok.inj h)
  refine ⟨hbeg, hend, ?_, rfl⟩
  change 1 ≤ counter.numbering.numbersUsed pageCount
  cases counter.numbering with
  | perPage => exact Nat.le_of_not_lt hpages
  | perDocument => exact Nat.le_refl 1

/-- Its labels say which numbers these are. -/
theorem numbers_nextDocument {pageCount : ℕ} {range : DocumentBatesRange} {after : BatesCounter}
    (h : counter.nextDocument pageCount = .ok (range, after)) :
    range.numbers counter.style = List.range' counter.next range.numbersUsed := by
  obtain ⟨hbeg, hend, hused, -⟩ := nextDocument_labels h
  rw [DocumentBatesRange.numbers, parseBates_eq_ok_iff.mpr hbeg, parseBates_eq_ok_iff.mpr hend]
  dsimp only
  congr 1
  omega

/-- **The numbers of a run**: those from where the counter was to where it is, in their order. -/
theorem numbers_documents {pageCounts : List ℕ} {after : BatesCounter}
    {results : List (Except BatesError DocumentBatesRange)}
    (h : counter.documents pageCounts = (results, after)) :
    counter.next ≤ after.next ∧
      (granted results).flatMap (DocumentBatesRange.numbers counter.style) =
        List.range' counter.next (after.next - counter.next) ∧
      ∀ range ∈ granted results, (range.numbers counter.style).length = range.numbersUsed ∧
        1 ≤ range.numbersUsed := by
  induction pageCounts generalizing counter results with
  | nil =>
    obtain ⟨rfl, rfl⟩ := Prod.mk.inj h
    simp [granted]
  | cons pageCount pageCounts ih =>
    have hcall := @call_run counter pageCount
    rw [BatesCounter.documents] at h
    rcases hnext : counter.nextDocument pageCount with e | ⟨range, middle⟩
    · -- nothing is taken
      simp only [hcall, hnext] at h
      obtain ⟨rfl, rfl⟩ := Prod.mk.inj h
      have hrest := @ih counter _ rfl
      exact hrest
    · simp only [hcall, hnext] at h
      obtain ⟨rfl, rfl⟩ := Prod.mk.inj h
      obtain ⟨-, -, hused, rfl⟩ := nextDocument_labels hnext
      have hnumbers := numbers_nextDocument hnext
      obtain ⟨hle, hrest, hall⟩ := ih rfl
      dsimp only at hle hrest hall
      refine ⟨by omega, ?_, ?_⟩
      · change range.numbers counter.style ++ _ = _
        rw [hnumbers]
        refine (congrArg _ hrest).trans ?_
        rw [List.range'_append_1]
        congr 1
        omega
      · intro other hother
        rcases List.mem_cons.mp hother with rfl | hother
        · exact ⟨by rw [hnumbers, List.length_range'], hused⟩
        · exact hall other hother

end Runs

/-- **What is promised** of a style: labels can be read, and only labels; they are in the order of
their numbers; and a counter hands out what comes next, or throws and stays as it is. -/
structure BatesSound (style : BatesStyle) : Prop where
  roundTrip : ∀ n label, formatBates style n = .ok label → parseBates style label = .ok n
  exact : ∀ s, (∃ n, parseBates style s = .ok n) ↔ ∃ n, formatBates style n = .ok s
  ordered : ∀ m n a b, formatBates style m = .ok a → formatBates style n = .ok b →
    (a < b ↔ m < n)
  gapless : ∀ numbering startNumber counter,
    BatesCounter.new style numbering startNumber = .ok counter → ∀ pageCounts results after,
      counter.documents pageCounts = (results, after) →
        (granted results).flatMap (DocumentBatesRange.numbers style) =
          List.range' startNumber (after.next - startNumber) ∧
        ∀ range ∈ granted results, (range.numbers style).length = range.numbersUsed ∧
          1 ≤ range.numbersUsed
  atomic : ∀ (counter after : BatesCounter) pageCount e,
    (BatesCounter.call pageCount).run counter = (.error e, after) → after = counter

end AegCloudDfir.Production
