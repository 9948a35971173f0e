import AegCloudDfir.Collection.DateWindows
import AegCloudDfir.Lib.LocalClock

/-!
# Local midnight

`zonedMidnightUtc` of `apps/worker/src/scope.ts` looks for the instant of a local midnight by
correcting a guess four times, and `dateRangeToInstants` makes a window from the midnight of a
date to that of the next. `Intl` shows the wall clock of an instant exactly, to the second; so
offsets are whole seconds, and they are less than a day.

The comment promises the first valid instant where there is no midnight. The corrections go back
and forth around it there, and of two midnights they may find the second.

* `correctGuess_eq` — the loop, as corrections of a local clock.
* `dayRight_iff` — the dates whose window is right.
-/

namespace AegCloudDfir.Collection

open LocalClock

/-- A time zone, in milliseconds. -/
structure TimeZone extends Zone dayMs where
  seconds : ∀ t, offset t % 1000 = 0

/-! ## The calendar -/

/-- Months and days of the month count from one. -/
theorem civilDate_bounds (n : ℤ) :
    1 ≤ (civilDate n).month ∧ (civilDate n).month ≤ 12 ∧ 1 ≤ (civilDate n).day ∧
      (civilDate n).day ≤ 31 := by
  obtain ⟨h0, h1⟩ := doy_marchDate n
  simp only [civilDate, MarchDate.civil]
  omega

/-- `0102-09-09` and what comes after it is of the year 100 or a later one. -/
theorem year_of_le {n : ℤ} (h : -682000 ≤ n) : 100 ≤ (civilDate n).year := by
  simp only [civilDate, MarchDate.civil, marchDate]
  omega

/-- `0874-10-30` and what comes before it is of the year 999 or an earlier one. -/
theorem year_of_lt {n : ℤ} (h : n < -400000) : (civilDate n).year < 1000 := by
  simp only [civilDate, MarchDate.civil, marchDate]
  omega

/-- The day of a date. -/
theorem dayNumber_civilDate (n : ℤ) : (civilDate n).march.dayNumber = n := by
  obtain ⟨h0, h1⟩ := doy_marchDate n
  rw [civilDate, march_civil h0 h1, dayNumber_marchDate]

/-- `9999-12-31` is the last day with a year of four digits. -/
theorem year_le_iff (n : ℤ) : (civilDate n).year ≤ 9999 ↔ n ≤ 2932896 := by
  refine ⟨fun h => ?_, fun h => ?_⟩
  · have hnumber := dayNumber_civilDate n
    obtain ⟨hmonth, hmonth', hday, hday'⟩ := civilDate_bounds n
    rw [← hnumber]
    simp only [MarchDate.dayNumber, CivilDate.march]
    split_ifs <;> omega
  · simp only [civilDate, MarchDate.civil, marchDate]
    omega

/-- The day after one that is no earlier than the year 100 has a year that is not negative. -/
theorem year_succ_nonneg {n : ℤ} (h : 100 ≤ (civilDate n).year) :
    0 ≤ (civilDate (n + 1)).year := by
  have hlate : -700000 ≤ n := by
    simp only [civilDate, MarchDate.civil, marchDate] at h
    omega
  simp only [civilDate, MarchDate.civil, marchDate]
  omega

/-- `Date.UTC` of a date, some days later, is that day, from the year 100 on. -/
theorem dateUTC_civilDate {n : ℤ} (h : 100 ≤ (civilDate n).year) (days : ℤ) :
    dateUTC (civilDate n).year ((civilDate n).month - 1) ((civilDate n).day + days) =
      (n + days) * dayMs := by
  obtain ⟨hmonth, hmonth', -, -⟩ := civilDate_bounds n
  have hnumber := dayNumber_civilDate n
  have hdiv : ((civilDate n).month - 1) / 12 = 0 := by omega
  have hmod : ((civilDate n).month - 1) % 12 + 1 = (civilDate n).month := by omega
  rw [dateUTC, if_neg (by omega), hdiv, hmod, add_zero]
  congr 1
  simp only [MarchDate.dayNumber, CivilDate.march] at hnumber ⊢
  omega

/-- `Date.UTC` of a date of the first hundred years is one of the last century or this. -/
theorem dateUTC_early {n : ℤ} (h0 : 0 ≤ (civilDate n).year) (h1 : (civilDate n).year ≤ 99) :
    ∃ k : ℤ, -26000 ≤ k ∧
      dateUTC (civilDate n).year ((civilDate n).month - 1) (civilDate n).day = k * dayMs := by
  obtain ⟨hmonth, hmonth', hday, -⟩ := civilDate_bounds n
  have hdiv : ((civilDate n).month - 1) / 12 = 0 := by omega
  have hmod : ((civilDate n).month - 1) % 12 + 1 = (civilDate n).month := by omega
  refine ⟨_, ?_, rfl⟩
  rw [if_pos ⟨h0, h1⟩, hdiv, hmod, add_zero]
  simp only [MarchDate.dayNumber, CivilDate.march]
  split_ifs <;> omega

/-! ## Corrections -/

/-- `asUtc`, of what the wall clock shows at an instant. -/
def asUtc (offset : ℤ → ℤ) (instant : ℤ) : ℤ :=
  let wall := wallClockInZone offset instant
  dateUTC wall.y (wall.m - 1) wall.d + wall.h * 3600000 + wall.min * 60000 + wall.s * 1000

section Corrections

variable (z : TimeZone)

/-- What the wall clock shows is read back, from the year 100 on. -/
theorem asUtc_eq {t : ℤ} (ht : t % 1000 = 0) (hlate : -682000 * dayMs ≤ t + z.offset t) :
    asUtc z.offset t = t + z.offset t := by
  have hseconds := z.seconds t
  have hyear : 100 ≤ (civilDate ((t + z.offset t) / dayMs)).year :=
    year_of_le ((Int.le_ediv_iff_mul_le (by decide)).mpr hlate)
  have hday := dateUTC_civilDate hyear 0
  rw [add_zero, add_zero] at hday
  rw [asUtc, wallClockInZone]
  dsimp only
  rw [if_pos (by omega), hday]
  generalize z.offset t = offset at *
  rw [dayMs]
  omega

/-- A correction is a whole second. -/
theorem correct_seconds {m : ℤ} (hm : m % 1000 = 0) (t : ℤ) : z.correct m t % 1000 = 0 := by
  have := z.seconds t
  rw [Zone.correct]
  omega

/-- **The loop makes its corrections**, and stops early where one more would change nothing. -/
theorem correctGuess_eq {m : ℤ} (hm : m % 1000 = 0) (hlate : -681000 * dayMs ≤ m) (rounds : ℕ)
    {guess : ℤ} (hguess : guess % 1000 = 0) (hnear : m - dayMs < guess) :
    correctGuess z.offset m rounds guess = (z.correct m)^[rounds] guess := by
  induction rounds generalizing guess with
  | zero => rfl
  | succ rounds ih =>
    have hbound := z.bounded guess
    have hclock : asUtc z.offset guess = guess + z.offset guess := by
      apply asUtc_eq z hguess
      have hday : dayMs = 86400000 := rfl
      omega
    have hstep : guess + (m - asUtc z.offset guess) = z.correct m guess := by
      rw [hclock, Zone.correct]
      omega
    change (if m - asUtc z.offset guess = 0 then guess
      else correctGuess z.offset m rounds (guess + (m - asUtc z.offset guess))) = _
    split_ifs with hfixed
    · rw [hfixed, add_zero] at hstep
      exact (Function.iterate_fixed hstep.symm _).symm
    · rw [hstep, ih (correct_seconds z hm guess) (z.correct_mem m guess).1,
        Function.iterate_succ_apply]

end Corrections

/-! ## Texts -/

/-- Three numbers of four, two and two digits are a date. -/
theorem splitDate_parts {a b c : JsString} (ha : a.length = 4) (hb : b.length = 2)
    (hc : c.length = 2) (hdigits : ∀ d ∈ a ++ b ++ c, IsDigit d) :
    splitDate (a ++ js "-" ++ b ++ js "-" ++ c) =
      .ok (parseDecimal a, parseDecimal b, parseDecimal c) := by
  match a, b, c with
  | [a0, a1, a2, a3], [b0, b1], [c0, c1] =>
    have hdate : isCalendarDate ([a0, a1, a2, a3] ++ js "-" ++ [b0, b1] ++ js "-" ++ [c0, c1]) =
        true := by
      have hdash : js "-" = [unitOf '-'] := rfl
      simp only [List.mem_append, List.mem_cons, List.not_mem_nil, or_false] at hdigits
      simp [isCalendarDate, hdash, hdigits]
    rw [splitDate, if_pos hdate]
    rfl

/-- A date has ten characters, and the first is a digit. -/
theorem splitDate_ok {date : JsString} {parts : ℕ × ℕ × ℕ} (h : splitDate date = .ok parts) :
    date.length = 10 ∧ ∀ c ∈ date.head?, IsDigit c := by
  rw [splitDate] at h
  split_ifs at h with hdate
  rw [isCalendarDate, Bool.and_eq_true, decide_eq_true_eq] at hdate
  refine ⟨hdate.1, fun c hc => ?_⟩
  rcases date with _ | ⟨d, rest⟩
  · cases hc
  · obtain rfl : d = c := Option.some.inj hc
    have := List.all_eq_true.mp hdate.2 (d, 0) (by simp)
    simpa using this

/-- The month and the day of a date, with the dashes before them. -/
def monthDayText (c : CivilDate) : JsString :=
  js "-" ++ paddedDecimal 2 c.month.toNat ++ js "-" ++ paddedDecimal 2 c.day.toNat

/-- A day as a scope has it: a calendar date with a year of four digits, where it has one. -/
def dateText (n : ℤ) : JsString := isoYear (civilDate n).year ++ monthDayText (civilDate n)

/-- A day as `addDays` writes it, whose years are not padded. -/
def shiftedText (n : ℤ) : JsString :=
  decimalInt (civilDate n).year ++ monthDayText (civilDate n)

theorem length_paddedDecimal {width n : ℕ} (hwidth : 0 < width) (h : n < 10 ^ width) :
    (paddedDecimal width n).length = width :=
  length_padStartZero ((length_decimal_le_iff hwidth).mpr h)

theorem length_monthDayText (n : ℤ) : (monthDayText (civilDate n)).length = 6 := by
  obtain ⟨hmonth, hmonth', hday, hday'⟩ := civilDate_bounds n
  have hdash : (js "-").length = 1 := rfl
  rw [monthDayText, List.length_append, List.length_append, List.length_append, hdash,
    length_paddedDecimal (by decide) (by omega), length_paddedDecimal (by decide) (by omega)]

/-- A day is read back. -/
theorem splitDate_dateText {n : ℤ} (h0 : 0 ≤ (civilDate n).year)
    (h1 : (civilDate n).year ≤ 9999) :
    splitDate (dateText n) = .ok ((civilDate n).year.toNat, (civilDate n).month.toNat,
      (civilDate n).day.toNat) := by
  obtain ⟨hmonth, hmonth', hday, hday'⟩ := civilDate_bounds n
  have htext : dateText n = paddedDecimal 4 (civilDate n).year.toNat ++ js "-" ++
      paddedDecimal 2 (civilDate n).month.toNat ++ js "-" ++
      paddedDecimal 2 (civilDate n).day.toNat := by
    rw [dateText, monthDayText, isoYear, if_pos ⟨h0, h1⟩]
    simp only [List.append_assoc]
  rw [htext, splitDate_parts (length_paddedDecimal (by decide) (by omega))
    (length_paddedDecimal (by decide) (by omega)) (length_paddedDecimal (by decide) (by omega))]
  · simp [paddedDecimal]
  intro d hd
  rcases List.mem_append.mp hd with hd | hd
  · rcases List.mem_append.mp hd with hd | hd
    · exact isDigit_of_mem_paddedDecimal hd
    · exact isDigit_of_mem_paddedDecimal hd
  · exact isDigit_of_mem_paddedDecimal hd

/-- Only a year of four digits is read. -/
theorem year_of_splitDate_dateText {n : ℤ} {parts : ℕ × ℕ × ℕ}
    (h : splitDate (dateText n) = .ok parts) :
    0 ≤ (civilDate n).year ∧ (civilDate n).year ≤ 9999 := by
  by_contra hyear
  have hfirst := (splitDate_ok h).2
  rw [dateText, isoYear, if_neg hyear] at hfirst
  split_ifs at hfirst with hsign
  · exact absurd (hfirst 0x2B rfl) (by decide)
  · exact absurd (hfirst 0x2D rfl) (by decide)

theorem decimalInt_of_nonneg {y : ℤ} (h : 0 ≤ y) : decimalInt y = decimal y.toNat := by
  obtain ⟨k, rfl⟩ := Int.eq_ofNat_of_zero_le h
  rfl

/-- What `addDays` writes is read only if the year has four digits, and then it is that day. -/
theorem shiftedText_eq {n : ℤ} (h0 : 1000 ≤ (civilDate n).year) (h1 : (civilDate n).year ≤ 9999) :
    shiftedText n = dateText n := by
  have hlong : ¬ (decimal (civilDate n).year.toNat).length ≤ 3 := by
    rw [length_decimal_le_iff (by decide)]
    omega
  have hpadded : paddedDecimal 4 (civilDate n).year.toNat = decimal (civilDate n).year.toNat := by
    rw [paddedDecimal, padStartZero, Nat.sub_eq_zero_of_le (by omega), List.replicate_zero,
      List.nil_append]
  rw [shiftedText, dateText, isoYear, if_pos ⟨by omega, h1⟩, hpadded,
    decimalInt_of_nonneg (by omega)]

theorem year_of_splitDate_shiftedText {n : ℤ} (h0 : 0 ≤ (civilDate n).year)
    {parts : ℕ × ℕ × ℕ} (h : splitDate (shiftedText n) = .ok parts) :
    1000 ≤ (civilDate n).year ∧ (civilDate n).year ≤ 9999 := by
  have hlength := (splitDate_ok h).1
  rw [shiftedText, List.length_append, length_monthDayText, decimalInt_of_nonneg h0] at hlength
  have hshort : (decimal (civilDate n).year.toNat).length ≤ 4 := by omega
  have hlong : ¬ (decimal (civilDate n).year.toNat).length ≤ 3 := by omega
  rw [length_decimal_le_iff (by decide)] at hshort hlong
  omega

/-- The day after one. -/
theorem addDays_dateText {n : ℤ} (h0 : 100 ≤ (civilDate n).year)
    (h1 : (civilDate n).year ≤ 9999) :
    addDays (dateText n) 1 = .ok (shiftedText (n + 1)) := by
  obtain ⟨hmonth, -, hday, -⟩ := civilDate_bounds n
  have hshift := dateUTC_civilDate h0 1
  rw [addDays, splitDate_dateText (by omega) h1]
  change Except.ok _ = _
  rw [Int.toNat_of_nonneg (by omega), Int.toNat_of_nonneg (by omega),
    Int.toNat_of_nonneg (by omega), Nat.cast_one, hshift, Int.mul_ediv_cancel _ (by decide),
    shiftedText, monthDayText]
  simp only [List.append_assoc]

/-! ## Midnights -/

theorem mul_dayMs_seconds (n : ℤ) : n * dayMs % 1000 = 0 := by
  rw [dayMs]
  omega

theorem mul_dayMs_le {a b : ℤ} (h : a ≤ b) : a * dayMs ≤ b * dayMs :=
  Int.mul_le_mul_of_nonneg_right h (by decide)

section Midnights

variable (z : TimeZone)

/-- The midnight that is found of a date, from the year 103 on. -/
theorem zonedMidnightUtc_eq {n : ℤ} (hlate : -681000 ≤ n) (h : (civilDate n).year ≤ 9999) :
    zonedMidnightUtc z.offset (dateText n) = .ok (z.corrected (n * dayMs)) := by
  have h0 : 100 ≤ (civilDate n).year := year_of_le (by omega)
  obtain ⟨hmonth, -, hday, -⟩ := civilDate_bounds n
  have hdate := dateUTC_civilDate h0 0
  have hguess := correctGuess_eq z (mul_dayMs_seconds n) (mul_dayMs_le hlate) 4
    (mul_dayMs_seconds n) (Int.sub_lt_self _ (by decide))
  rw [zonedMidnightUtc, splitDate_dateText (by omega) h]
  change Except.ok _ = _
  rw [Int.toNat_of_nonneg (by omega), Int.toNat_of_nonneg (by omega),
    Int.toNat_of_nonneg (by omega), ← add_zero (civilDate n).day, hdate, add_zero, hguess]
  rfl

/-- A date of the first hundred years is looked for in the last century. -/
theorem lt_of_zonedMidnightUtc_early {n : ℤ} (h0 : 0 ≤ (civilDate n).year)
    (h1 : (civilDate n).year ≤ 99) {t : ℤ}
    (h : zonedMidnightUtc z.offset (dateText n) = .ok t) : -26001 * dayMs < t := by
  obtain ⟨hmonth, -, hday, -⟩ := civilDate_bounds n
  obtain ⟨k, hk, hdate⟩ := dateUTC_early h0 h1
  have hlate := mul_dayMs_le hk
  have hguess := correctGuess_eq z (mul_dayMs_seconds k)
    (mul_dayMs_le (show -681000 ≤ k by omega)) 4 (mul_dayMs_seconds k)
    (Int.sub_lt_self _ (by decide))
  rw [zonedMidnightUtc, splitDate_dateText h0 (by omega)] at h
  change Except.ok _ = _ at h
  rw [Int.toNat_of_nonneg (by omega), Int.toNat_of_nonneg (by omega),
    Int.toNat_of_nonneg (by omega), hdate, hguess] at h
  obtain rfl := Except.ok.inj h
  have := (z.correct_mem (k * dayMs) (z.correct (k * dayMs) (z.correct (k * dayMs)
    (z.correct (k * dayMs) (k * dayMs))))).1
  have hms : dayMs = 86400000 := rfl
  change _ < z.correct _ _
  omega

end Midnights

/-! ## Windows of days -/

section Windows

variable (zones : JsString → TimeZone) (timezone : JsString)

/-- `dateRangeToInstants` with the offsets of time zones. -/
abbrev windowOf (range : DateRange) : Except JsString ScopeInstants :=
  dateRangeToInstants (fun name => (zones name).offset) range

/-- The window of a day is right. It begins at the first instant at which the wall clock shows
its midnight or a later time, ends at the first that does so for the next day, and has something
in it, and every range from the next day on begins where it ends. -/
def DayRight (n : ℤ) : Prop :=
  ∃ since bound,
    zonedMidnightUtc (zones timezone).offset (dateText n) = .ok since ∧
      windowOf zones (.range (dateText n) (dateText n) timezone) =
        .ok ⟨some since, some bound⟩ ∧
      IsLeast ((zones timezone).Reached (n * dayMs)) since ∧
      IsLeast ((zones timezone).Reached ((n + 1) * dayMs)) bound ∧
      since < bound ∧
      ∀ endDate instants,
        windowOf zones (.range (dateText (n + 1)) endDate timezone) = .ok instants →
          instants.since = some bound

/-- What is right is a matter of the clock alone, between the years that can be written: the
corrections settle at both midnights, and the day is not skipped as a whole. -/
structure DaySettles (z : TimeZone) (n : ℤ) : Prop where
  year_ge : 1000 ≤ (civilDate (n + 1)).year
  year_le : (civilDate (n + 1)).year ≤ 9999
  day : z.Settles (n * dayMs)
  next : z.Settles ((n + 1) * dayMs)
  comes : z.Comes (n * dayMs) ((n + 1) * dayMs)

variable {zones timezone} {n : ℤ}

/-- A day whose window begins where it should is no earlier than the year 100. -/
theorem year_of_isLeast {since : ℤ}
    (h : zonedMidnightUtc (zones timezone).offset (dateText n) = .ok since)
    (hleast : IsLeast ((zones timezone).Reached (n * dayMs)) since) :
    100 ≤ (civilDate n).year ∧ (civilDate n).year ≤ 9999 := by
  obtain ⟨parts, hparts, -⟩ := bind_eq_ok.mp h
  obtain ⟨h0, h1⟩ := year_of_splitDate_dateText hparts
  refine ⟨?_, h1⟩
  by_contra hearly
  have hlate := lt_of_zonedMidnightUtc_early (zones timezone) h0 (by omega) h
  have hfirst := (Zone.isLeast_mem hleast).2
  have hday : n < -682000 := lt_of_not_ge fun hn => hearly (year_of_le hn)
  have := mul_dayMs_le hday.le
  have hms : dayMs = 86400000 := rfl
  omega

/-- The window of a day is that of the corrections, if the year of the next day has four
digits. -/
theorem windowOf_day (hge : 1000 ≤ (civilDate (n + 1)).year)
    (hle : (civilDate (n + 1)).year ≤ 9999) :
    zonedMidnightUtc (zones timezone).offset (dateText n) =
        .ok ((zones timezone).corrected (n * dayMs)) ∧
      windowOf zones (.range (dateText n) (dateText n) timezone) =
        .ok ⟨some ((zones timezone).corrected (n * dayMs)),
          some ((zones timezone).corrected ((n + 1) * dayMs))⟩ := by
  have hlate : -400000 ≤ n + 1 := not_lt.mp fun h => absurd (year_of_lt h) (not_lt.mpr hge)
  have hlast : n + 1 ≤ 2932896 := (year_le_iff _).mp hle
  have hyear : (civilDate n).year ≤ 9999 := (year_le_iff _).mpr (by omega)
  have hsince := zonedMidnightUtc_eq (zones timezone) (show -681000 ≤ n by omega) hyear
  refine ⟨hsince, dateRangeToInstants_range.mpr ⟨_, _, _, hsince,
    addDays_dateText (year_of_le (by omega)) hyear, ?_, rfl⟩⟩
  rw [shiftedText_eq hge hle]
  exact zonedMidnightUtc_eq (zones timezone) (by omega) hle

/-- **Right days.** The window of a day is right exactly if the corrections settle at its midnight
and at the next, and the day comes. -/
theorem dayRight_iff (zones : JsString → TimeZone) (timezone : JsString) (n : ℤ) :
    DayRight zones timezone n ↔ DaySettles (zones timezone) n := by
  refine ⟨?_, fun h => ?_⟩
  · rintro ⟨since, bound, hsince, hwindow, hfirst, hnext, hlt, -⟩
    obtain ⟨h0, h1⟩ := year_of_isLeast hsince hfirst
    obtain ⟨_, nextDay, _, -, hnextDay, hbound, -⟩ := dateRangeToInstants_range.mp hwindow
    rw [addDays_dateText h0 h1] at hnextDay
    obtain rfl := Except.ok.inj hnextDay
    obtain ⟨parts, hparts, -⟩ := bind_eq_ok.mp hbound
    obtain ⟨hge, hle⟩ := year_of_splitDate_shiftedText (year_succ_nonneg h0) hparts
    obtain ⟨hsince', hwindow'⟩ := @windowOf_day zones timezone n hge hle
    rw [hwindow] at hwindow'
    obtain ⟨hs, hb⟩ := ScopeInstants.mk.inj (Except.ok.inj hwindow')
    obtain rfl := Option.some.inj hs
    obtain rfl := Option.some.inj hb
    exact ⟨hge, hle, Zone.isLeast_corrected_iff.mp hfirst, Zone.isLeast_corrected_iff.mp hnext,
      (Zone.lt_iff_comes hfirst hnext).mp hlt⟩
  · have hfirst := Zone.isLeast_corrected_iff.mpr h.day
    have hnext := Zone.isLeast_corrected_iff.mpr h.next
    obtain ⟨hsince, hwindow⟩ :=
      @windowOf_day zones timezone n h.year_ge h.year_le
    refine ⟨_, _, hsince, hwindow, hfirst, hnext, (Zone.lt_iff_comes hfirst hnext).mpr h.comes,
      fun endDate instants hrange => ?_⟩
    obtain ⟨start, _, _, hstart, -, -, rfl⟩ := dateRangeToInstants_range.mp hrange
    have hlate : -400000 ≤ n + 1 :=
      not_lt.mp fun hn => absurd (year_of_lt hn) (not_lt.mpr h.year_ge)
    rw [zonedMidnightUtc_eq (zones timezone) (by omega) h.year_le] at hstart
    rw [Except.ok.inj hstart]

end Windows

/-! ## A skipped midnight -/

theorem saoPaulo_steady (s t : ℤ)
    (h : ∀ c ∈ ({1541300400000} : Finset ℤ), c ≤ s ↔ c ≤ t) :
    (if s < 1541300400000 then -10800000 else -7200000 : ℤ) =
      if t < 1541300400000 then -10800000 else -7200000 := by
  have := h 1541300400000 (Finset.mem_singleton_self _)
  split_ifs <;> omega

theorem saoPaulo_bounded (t : ℤ) :
    -dayMs < (if t < 1541300400000 then -10800000 else -7200000) ∧
      (if t < 1541300400000 then -10800000 else -7200000) < dayMs := by
  rw [dayMs]
  split_ifs <;> omega

theorem saoPaulo_seconds (t : ℤ) :
    (if t < 1541300400000 then -10800000 else -7200000 : ℤ) % 1000 = 0 := by
  split_ifs <;> decide

/-- Offsets that change from three hours behind to two, on 2018-11-04 at midnight. -/
def saoPaulo : TimeZone where
  offset t := if t < 1541300400000 then -10800000 else -7200000
  changes := {1541300400000}
  steady := saoPaulo_steady
  bounded := saoPaulo_bounded
  seconds := saoPaulo_seconds

/-- The day that begins at one o'clock begins for the code an hour before that, on the day
before. -/
theorem saoPaulo_not_right : ¬ DayRight (fun _ => saoPaulo) (js "America/Sao_Paulo") 17839 := by
  rintro ⟨since, bound, hsince, -, ⟨hreached, -⟩, -⟩
  have hmidnight : zonedMidnightUtc saoPaulo.offset (dateText 17839) = .ok 1541296800000 := by
    decide +kernel
  obtain rfl := Except.ok.inj (hsince.symm.trans hmidnight)
  have hshown : 17839 * dayMs ≤ saoPaulo.wall 1541296800000 := hreached
  exact absurd hshown (by decide)

end AegCloudDfir.Collection
