import AegCloudDfir.Collection.DateWindows

/-!
# The queries of the mail connectors

How `listMessages` of each mail connector asks for the window of a collection, and what the
provider takes for an answer: Gmail (`packages/connectors/src/google/gmail.ts`) compares with
midnights in UTC, IMAP (`packages/connectors/src/imap/uid.ts`) with calendar dates wherever the
server is, and Graph (`packages/connectors/src/microsoft/graph-mail.ts`) with instants. A query
that is as wide as the window loses nothing; whether the days it is rounded to are, depends on
the time of day of both ends.
-/

namespace AegCloudDfir.Collection

open PrefixCode

/-! ## Gmail -/

/-- `gmailDate` -/
def gmailDate (t : ℤ) : JsString :=
  let c := civilDate (t / dayMs)
  decimalInt c.year ++ js "/" ++ paddedDecimal 2 c.month.toNat ++ js "/" ++
    paddedDecimal 2 c.day.toNat

/-- The terms of `q`. -/
def gmailQuery (instants : ScopeInstants) : List JsString :=
  (instants.since.toList.map fun since => js "after:" ++ gmailDate since) ++
    instants.untilExclusive.toList.map fun bound => js "before:" ++ gmailDate bound

/-- How Gmail reads a term: a date is a midnight in UTC, and `before` excludes it. -/
def GmailTermMatches (term : JsString) (t : ℤ) : Prop :=
  ∃ day : ℤ, term = js "after:" ++ gmailDate (day * dayMs) ∧ day * dayMs ≤ t ∨
    term = js "before:" ++ gmailDate (day * dayMs) ∧ t < day * dayMs

/-- A message matches all terms. -/
def GmailMatches (q : List JsString) (t : ℤ) : Prop := ∀ term ∈ q, GmailTermMatches term t

/-! ## IMAP -/

/-- `dayStart`, for a valid date -/
def dayStart (t : ℤ) : ℤ := t / dayMs * dayMs

/-- `ImapSearchCriteria`; with neither date it is `all`. -/
structure ImapSearchCriteria where
  since : Option ℤ
  before : Option ℤ

/-- `searchCriteria` -/
def searchCriteria (instants : ScopeInstants) : ImapSearchCriteria where
  since := instants.since.map dayStart
  before := (instants.untilExclusive.map dayStart).map (· + dayMs)

/-- How a server reads the criteria: the date of a message is the calendar date in the offset it
was recorded with. -/
def ImapMatches (criteria : ImapSearchCriteria) (offset t : ℤ) : Prop :=
  (∀ since ∈ criteria.since, since / dayMs ≤ (t + offset) / dayMs) ∧
    ∀ before ∈ criteria.before, (t + offset) / dayMs < before / dayMs

/-- Offsets from twelve hours behind UTC to fourteen hours ahead of it. -/
def IsOffset (offset : ℤ) : Prop := -43200000 ≤ offset ∧ offset ≤ 50400000

/-! ## Graph -/

/-- A comparison of `receivedDateTime`. -/
inductive GraphFilter : Type where
  | ge (instant : ℤ)
  | le (instant : ℤ)

/-- `filters` -/
def graphFilters (instants : ScopeInstants) : List GraphFilter :=
  instants.since.toList.map .ge ++ instants.untilExclusive.toList.map .le

/-- What a filter lets through. -/
def GraphFilter.Matches (t : ℤ) : GraphFilter → Prop
  | .ge instant => instant ≤ t
  | .le instant => t ≤ instant

/-! ## Nothing is lost -/

/-- Every message of the window matches what each connector asks for. -/
def NothingLost (zones : JsString → ℤ → ℤ) (dateRange : DateRange) : Prop :=
  ∀ instants, dateRangeToInstants zones dateRange = .ok instants → ∀ t, instants.Holds t →
    GmailMatches (gmailQuery instants) t ∧
      (∀ offset, IsOffset offset → ImapMatches (searchCriteria instants) offset t) ∧
      ∀ filter ∈ graphFilters instants, filter.Matches t

/-- The window is empty, or it begins at noon or later and ends at midnight, in UTC. -/
def Outward (since bound : ℤ) : Prop :=
  bound ≤ since ∨ 43200000 ≤ since % dayMs ∧ bound % dayMs = 0

/-- The range is all time, or its first midnight and the midnight after it are such a window. -/
def RoundsOutward (zones : JsString → ℤ → ℤ) : DateRange → Prop
  | .allTime => True
  | .range startDate endDate timezone => ∀ since nextDay bound,
    zonedMidnightUtc (zones timezone) startDate = .ok since → addDays endDate 1 = .ok nextDay →
      zonedMidnightUtc (zones timezone) nextDay = .ok bound → Outward since bound

/-! ### The dates of Gmail -/

/-- A year is read up to the slash after it. -/
theorem decimalInt_slash_inj {y z : ℤ} {r s : JsString}
    (h : decimalInt y ++ 0x2F :: r = decimalInt z ++ 0x2F :: s) : y = z ∧ r = s := by
  have halphabet : ∀ x : ℤ, ∀ c ∈ decimalInt x, IsDigit c ∨ c = 0x2D := by
    rintro (n | n) c hc
    · exact .inl (isDigit_of_mem_decimal hc)
    · rcases List.mem_cons.mp hc with rfl | hc
      · exact .inr rfl
      · exact .inl (isDigit_of_mem_decimal hc)
  have hstops : ∀ t : JsString, Stops (fun c => ¬ (IsDigit c ∨ c = 0x2D)) (0x2F :: t) :=
    fun t => stops_cons.mpr (by decide)
  obtain ⟨hyz, hrs⟩ := readsBack_of_alphabet decimalInt_injective halphabet (fun _ h => h) y
    z _ _ (hstops r) (hstops s) h
  exact ⟨hyz, (List.cons.inj hrs).2⟩

/-- Different days have different texts. -/
theorem gmailDate_inj {a b : ℤ} (h : gmailDate a = gmailDate b) : a / dayMs = b / dayMs := by
  simp only [gmailDate, show js "/" = [0x2F] from rfl, List.append_assoc, List.cons_append,
    List.nil_append] at h
  obtain ⟨hyear, h⟩ := decimalInt_slash_inj h
  obtain ⟨hmonth, hday⟩ := paddedDecimal_sep_inj (by decide) h
  exact civilDate_eq_of_fields hyear hmonth (paddedDecimal_injective 2 hday)

theorem mul_dayMs_div (day : ℤ) : day * dayMs / dayMs = day :=
  Int.mul_ediv_cancel _ (by decide)

theorem after_ne_before (a b : JsString) : js "after:" ++ a ≠ js "before:" ++ b := by
  have hafter : js "after:" = unitOf 'a' :: js "fter:" := rfl
  have hbefore : js "before:" = unitOf 'b' :: js "efore:" := rfl
  rw [hafter, hbefore]
  intro h
  exact absurd (List.cons.inj h).1 (by decide)

/-- `after` is about the midnight before the instant, -/
theorem gmailAfter_iff {since t : ℤ} :
    GmailTermMatches (js "after:" ++ gmailDate since) t ↔ since / dayMs * dayMs ≤ t := by
  refine ⟨?_, ?_⟩
  · rintro ⟨day, ⟨hterm, hle⟩ | ⟨hterm, -⟩⟩
    · have hday := gmailDate_inj (List.append_cancel_left hterm)
      rw [mul_dayMs_div] at hday
      rwa [hday]
    · exact absurd hterm (after_ne_before _ _)
  · intro hle
    refine ⟨since / dayMs, .inl ⟨?_, hle⟩⟩
    rw [gmailDate, gmailDate, mul_dayMs_div]

/-- and so is `before`. -/
theorem gmailBefore_iff {bound t : ℤ} :
    GmailTermMatches (js "before:" ++ gmailDate bound) t ↔ t < bound / dayMs * dayMs := by
  refine ⟨?_, ?_⟩
  · rintro ⟨day, ⟨hterm, -⟩ | ⟨hterm, hlt⟩⟩
    · exact absurd hterm.symm (after_ne_before _ _)
    · have hday := gmailDate_inj (List.append_cancel_left hterm)
      rw [mul_dayMs_div] at hday
      rwa [hday]
  · intro hlt
    refine ⟨bound / dayMs, .inr ⟨?_, hlt⟩⟩
    rw [gmailDate, gmailDate, mul_dayMs_div]

/-! ### The windows -/

section Windows

variable {since bound t : ℤ}

theorem holds_window_iff :
    (ScopeInstants.mk (some since) (some bound)).Holds t ↔ since ≤ t ∧ t < bound := by
  simp [ScopeInstants.Holds]

theorem gmailMatches_iff :
    GmailMatches (gmailQuery ⟨some since, some bound⟩) t ↔
      since / dayMs * dayMs ≤ t ∧ t < bound / dayMs * dayMs := by
  rw [← gmailAfter_iff, ← gmailBefore_iff]
  simp [GmailMatches, gmailQuery]

theorem imapMatches_iff {offset : ℤ} :
    ImapMatches (searchCriteria ⟨some since, some bound⟩) offset t ↔
      since / dayMs ≤ (t + offset) / dayMs ∧ (t + offset) / dayMs ≤ bound / dayMs := by
  have hbefore : (bound / dayMs * dayMs + dayMs) / dayMs = bound / dayMs + 1 := by
    rw [← add_one_mul, mul_dayMs_div]
  simp [ImapMatches, searchCriteria, dayStart, mul_dayMs_div, hbefore]

theorem graphMatches_iff :
    (∀ filter ∈ graphFilters ⟨some since, some bound⟩, filter.Matches t) ↔
      since ≤ t ∧ t ≤ bound := by
  simp [graphFilters, GraphFilter.Matches]

/-- Gmail finds all of a window exactly if it is empty or ends at midnight. -/
theorem gmail_finds_iff (since bound : ℤ) :
    (∀ t, since ≤ t → t < bound → GmailMatches (gmailQuery ⟨some since, some bound⟩) t) ↔
      bound ≤ since ∨ bound % dayMs = 0 := by
  simp only [gmailMatches_iff, dayMs]
  refine ⟨?_, ?_⟩
  · intro h
    by_contra hnot
    -- the last instant of the window is after the last midnight
    have hlast := h (bound - 1) (by omega) (by omega)
    omega
  · rintro (hempty | hmidnight) t hsince hbound
    · omega
    · omega

/-- IMAP finds all of a window exactly if it is empty, or it does not begin before noon or end
after ten. -/
theorem imap_finds_iff (since bound : ℤ) :
    (∀ t, since ≤ t → t < bound → ∀ offset, IsOffset offset →
      ImapMatches (searchCriteria ⟨some since, some bound⟩) offset t) ↔
      bound ≤ since ∨ 43200000 ≤ since % dayMs ∧ bound % dayMs ≤ 36000000 := by
  simp only [imapMatches_iff, dayMs, IsOffset]
  refine ⟨?_, ?_⟩
  · intro h
    by_contra hnot
    -- the first instant where it is still yesterday, and the last where it is tomorrow already
    have hfirst := h since le_rfl (by omega) (-43200000) (by omega)
    have hlast := h (bound - 1) (by omega) (by omega) 50400000 (by omega)
    omega
  · rintro (hempty | ⟨hnoon, hten⟩) t hsince hbound offset hoffset
    · omega
    · omega

/-- **A window is found by all connectors** exactly if it is rounded outward. -/
theorem finds_iff :
    (∀ t, since ≤ t → t < bound → GmailMatches (gmailQuery ⟨some since, some bound⟩) t ∧
      (∀ offset, IsOffset offset →
        ImapMatches (searchCriteria ⟨some since, some bound⟩) offset t) ∧
      ∀ filter ∈ graphFilters ⟨some since, some bound⟩, filter.Matches t) ↔
      Outward since bound := by
  have hgraph : ∀ t, since ≤ t → t < bound →
      ∀ filter ∈ graphFilters ⟨some since, some bound⟩, filter.Matches t :=
    fun t hsince hbound => graphMatches_iff.mpr ⟨hsince, hbound.le⟩
  have hboth := and_congr (gmail_finds_iff since bound) (imap_finds_iff since bound)
  have houtward : (bound ≤ since ∨ bound % dayMs = 0) ∧
      (bound ≤ since ∨ 43200000 ≤ since % dayMs ∧ bound % dayMs ≤ 36000000) ↔
        Outward since bound := by
    simp only [Outward, dayMs]
    omega
  rw [← houtward, ← hboth]
  refine ⟨?_, ?_⟩
  · intro h
    exact ⟨fun t hsince hbound => (h t hsince hbound).1,
      fun t hsince hbound => (h t hsince hbound).2.1⟩
  · rintro ⟨hgmail, himap⟩ t hsince hbound
    exact ⟨hgmail t hsince hbound, himap t hsince hbound, hgraph t hsince hbound⟩

end Windows

/-- **No connector loses a message of the window** exactly if the window is rounded outward. -/
theorem nothingLost_iff (zones : JsString → ℤ → ℤ) (dateRange : DateRange) :
    NothingLost zones dateRange ↔ RoundsOutward zones dateRange := by
  cases dateRange with
  | allTime =>
    refine iff_of_true ?_ trivial
    rintro instants ⟨⟩ t -
    simp [GmailMatches, gmailQuery, ImapMatches, searchCriteria, graphFilters]
  | range startDate endDate timezone =>
    refine ⟨?_, ?_⟩
    · intro h since nextDay bound hsince hnextDay hbound
      rw [← finds_iff]
      intro t ht ht'
      exact h _ (dateRangeToInstants_range.mpr ⟨since, nextDay, bound, hsince, hnextDay, hbound,
        rfl⟩) t (holds_window_iff.mpr ⟨ht, ht'⟩)
    · intro h instants hinstants t hholds
      obtain ⟨since, nextDay, bound, hsince, hnextDay, hbound, rfl⟩ :=
        dateRangeToInstants_range.mp hinstants
      obtain ⟨ht, ht'⟩ := holds_window_iff.mp hholds
      exact finds_iff.mpr (h since nextDay bound hsince hnextDay hbound) t ht ht'

/-! ### A day west of Greenwich -/

/-- Chicago in January. -/
def chicago (_ : JsString) (_ : ℤ) : ℤ := -21600000

/-- New Year's Day of 2024 there. -/
def newYear : DateRange := .range (js "2024-01-01") (js "2024-01-01") (js "America/Chicago")

/-- The evening of the day is not found. -/
theorem newYear_lost : ¬ NothingLost chicago newYear := by
  intro h
  have hinstants : dateRangeToInstants chicago newYear =
      .ok ⟨some 1704088800000, some 1704175200000⟩ := by
    decide +kernel
  have hgmail := (h _ hinstants 1704160000000 (holds_window_iff.mpr (by decide))).1
  rw [gmailMatches_iff] at hgmail
  exact absurd hgmail.2 (by decide)

end AegCloudDfir.Collection
