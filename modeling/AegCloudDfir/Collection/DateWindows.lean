import AegCloudDfir.Js.Date

/-!
# The window of a collection

`dateRangeToInstants` of `apps/worker/src/scope.ts`: a range of calendar dates in a time zone,
as a half-open window of instants. A time zone is its offset from UTC, as a function of the
instant; nothing else is known of it. Instants are time values. Between functions the source
passes them as texts of `toISOString`, which are different for different time values
(`toISOString_injective`).
-/

namespace AegCloudDfir.Collection

/-- A day, in milliseconds. -/
def dayMs : ℤ := 86400000

/-- `Date.UTC(y, m, d)`: months count from zero and days from one, whatever their number, and
years below 100 are years of the last century. -/
def dateUTC (y m d : ℤ) : ℤ :=
  let y := if 0 ≤ y ∧ y ≤ 99 then 1900 + y else y
  ((CivilDate.mk (y + m / 12) (m % 12 + 1) 1).march.dayNumber + (d - 1)) * dayMs

/-- `DATE_RE`: four digits, two and two, with dashes between them. -/
def isCalendarDate (date : JsString) : Bool :=
  date.length = 10 && date.zipIdx.all fun c =>
    if c.2 = 4 ∨ c.2 = 7 then decide (c.1 = unitOf '-') else decide (IsDigit c.1)

/-- `splitDate` -/
def splitDate (date : JsString) : Except JsString (ℕ × ℕ × ℕ) :=
  if isCalendarDate date then
    .ok (parseDecimal (date.take 4), parseDecimal ((date.drop 5).take 2),
      parseDecimal (date.drop 8))
  else .error (js "invalid calendar date: " ++ date)

/-- `addDays` -/
def addDays (date : JsString) (days : ℕ) : Except JsString JsString := do
  let (y, m, d) ← splitDate date
  let shifted := civilDate (dateUTC y (m - 1) (d + days) / dayMs)
  .ok (decimalInt shifted.year ++ js "-" ++ paddedDecimal 2 shifted.month.toNat ++ js "-" ++
    paddedDecimal 2 shifted.day.toNat)

/-- `WallClock` -/
structure WallClock where
  y : ℤ
  m : ℤ
  d : ℤ
  h : ℤ
  min : ℤ
  s : ℤ

/-- `wallClockInZone`; a year before the first is counted backwards, and its era is not said. -/
def wallClockInZone (offset : ℤ → ℤ) (instant : ℤ) : WallClock :=
  let c := civilDate ((instant + offset instant) / dayMs)
  let ms := (instant + offset instant) % dayMs
  { y := if 0 < c.year then c.year else 1 - c.year
    m := c.month
    d := c.day
    h := ms / 3600000
    min := ms / 60000 % 60
    s := ms / 1000 % 60 }

/-- The loop of `zonedMidnightUtc`, with the rounds that are left. -/
def correctGuess (offset : ℤ → ℤ) (desired : ℤ) : ℕ → ℤ → ℤ
  | 0, guess => guess
  | rounds + 1, guess =>
    let wall := wallClockInZone offset guess
    let asUtc := dateUTC wall.y (wall.m - 1) wall.d + wall.h * 3600000 + wall.min * 60000 +
      wall.s * 1000
    if desired - asUtc = 0 then guess
    else correctGuess offset desired rounds (guess + (desired - asUtc))

/-- `zonedMidnightUtc` -/
def zonedMidnightUtc (offset : ℤ → ℤ) (date : JsString) : Except JsString ℤ := do
  let (y, m, d) ← splitDate date
  let desired := dateUTC y (m - 1) d
  .ok (correctGuess offset desired 4 desired)

/-- `dateRange` of a scope -/
inductive DateRange : Type where
  | allTime
  | range (startDate endDate timezone : JsString)

/-- `ScopeInstants` -/
structure ScopeInstants where
  since : Option ℤ
  untilExclusive : Option ℤ
  deriving DecidableEq

/-- `dateRangeToInstants`; `zones` are the offsets of the time zones. -/
def dateRangeToInstants (zones : JsString → ℤ → ℤ) : DateRange → Except JsString ScopeInstants
  | .allTime => .ok ⟨none, none⟩
  | .range startDate endDate timezone => do
    let since ← zonedMidnightUtc (zones timezone) startDate
    let nextDay ← addDays endDate 1
    let untilExclusive ← zonedMidnightUtc (zones timezone) nextDay
    .ok ⟨some since, some untilExclusive⟩

theorem dateRangeToInstants_range {zones : JsString → ℤ → ℤ}
    {startDate endDate timezone : JsString} {instants : ScopeInstants} :
    dateRangeToInstants zones (.range startDate endDate timezone) = .ok instants ↔
      ∃ since nextDay bound, zonedMidnightUtc (zones timezone) startDate = .ok since ∧
        addDays endDate 1 = .ok nextDay ∧ zonedMidnightUtc (zones timezone) nextDay = .ok bound ∧
          instants = ⟨some since, some bound⟩ := by
  simp only [dateRangeToInstants, bind_eq_ok]
  refine ⟨?_, ?_⟩
  · rintro ⟨since, hsince, nextDay, hnextDay, bound, hbound, ⟨⟩⟩
    exact ⟨since, nextDay, bound, hsince, hnextDay, hbound, rfl⟩
  · rintro ⟨since, nextDay, bound, hsince, hnextDay, hbound, rfl⟩
    exact ⟨since, hsince, nextDay, hnextDay, bound, hbound, rfl⟩

/-- The loop keeps to whole seconds. -/
theorem correctGuess_seconds {offset : ℤ → ℤ} {desired : ℤ} (hdesired : desired % 1000 = 0)
    {rounds : ℕ} {guess : ℤ} (hguess : guess % 1000 = 0) :
    correctGuess offset desired rounds guess % 1000 = 0 := by
  induction rounds generalizing guess with
  | zero => exact hguess
  | succ rounds ih =>
    rw [correctGuess]
    split_ifs
    · exact hguess
    · apply ih
      simp only [dateUTC, dayMs]
      omega

/-- The instants of a window are whole seconds. -/
theorem zonedMidnightUtc_seconds {offset : ℤ → ℤ} {date : JsString} {t : ℤ}
    (h : zonedMidnightUtc offset date = .ok t) : t % 1000 = 0 := by
  rw [zonedMidnightUtc, bind_eq_ok] at h
  obtain ⟨⟨y, m, d⟩, -, ⟨⟩⟩ := h
  have hdesired : dateUTC y (m - 1) d % 1000 = 0 := by
    simp only [dateUTC, dayMs]
    omega
  exact correctGuess_seconds hdesired hdesired

/-- An instant is in the window. -/
def ScopeInstants.Holds (instants : ScopeInstants) (t : ℤ) : Prop :=
  (∀ since ∈ instants.since, since ≤ t) ∧ ∀ bound ∈ instants.untilExclusive, t < bound

end AegCloudDfir.Collection
