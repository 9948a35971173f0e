import Mathlib.Data.Int.Basic
import AegCloudDfir.Js.Text

/-!
# `Date.prototype.toISOString`

The proleptic Gregorian calendar date and the time of day of a time value,
written as ECMAScript prescribes: four-digit years from 0 to 9999, six digits
and a sign otherwise. Two time values with the same text are equal
(`toISOString_injective`).
-/

namespace AegCloudDfir

open PrefixCode

/-- A calendar date in the proleptic Gregorian calendar. -/
structure CivilDate where
  /-- the year, possibly negative -/
  year : ℤ
  /-- 1 to 12 -/
  month : ℤ
  /-- 1 to 31 -/
  day : ℤ

/-- A day in a year counted from March, so that the leap day is the last one. -/
structure MarchDate where
  /-- the calendar year March lies in -/
  year : ℤ
  /-- days since 1 March -/
  doy : ℤ

/-- The day counted from 1970-01-01, by 400-year eras, centuries, four-year
cycles and years. -/
def marchDate (days : ℤ) : MarchDate :=
  let z := days + 719468
  let doe := z % 146097
  let century := min (doe / 36524) 3
  let doc := doe - century * 36524
  let doq := doc % 1461
  let year := min (doq / 365) 3
  { year := z / 146097 * 400 + century * 100 + doc / 1461 * 4 + year
    doy := doq - year * 365 }

/-- The month and the day of the month. -/
def MarchDate.civil (c : MarchDate) : CivilDate :=
  let mp := (5 * c.doy + 2) / 153
  { year := if mp < 10 then c.year else c.year + 1
    month := if mp < 10 then mp + 3 else mp - 9
    day := c.doy - (153 * mp + 2) / 5 + 1 }

/-- The date of a day counted from 1970-01-01. -/
def civilDate (days : ℤ) : CivilDate := (marchDate days).civil

/-- The day a March date stands for. -/
def MarchDate.dayNumber (c : MarchDate) : ℤ :=
  c.year / 400 * 146097 + c.year % 400 / 100 * 36524 + c.year % 100 / 4 * 1461 +
    c.year % 4 * 365 + c.doy - 719468

/-- The March date of a calendar date. -/
def CivilDate.march (c : CivilDate) : MarchDate :=
  let mp := if 2 < c.month then c.month - 3 else c.month + 9
  { year := if 2 < c.month then c.year else c.year - 1
    doy := (153 * mp + 2) / 5 + c.day - 1 }

theorem doy_marchDate (days : ℤ) : 0 ≤ (marchDate days).doy ∧ (marchDate days).doy ≤ 365 := by
  simp only [marchDate]
  omega

/-- The era, the century, the cycle and the year can be read off the year. -/
theorem year_parts {e c q y : ℤ} (hc : 0 ≤ c ∧ c ≤ 3) (hq : 0 ≤ q ∧ q ≤ 24)
    (hy : 0 ≤ y ∧ y ≤ 3) :
    (e * 400 + c * 100 + q * 4 + y) / 400 = e ∧
      (e * 400 + c * 100 + q * 4 + y) % 400 / 100 = c ∧
      (e * 400 + c * 100 + q * 4 + y) % 100 / 4 = q ∧
      (e * 400 + c * 100 + q * 4 + y) % 4 = y := by
  omega

theorem dayNumber_marchDate (days : ℤ) : (marchDate days).dayNumber = days := by
  simp only [marchDate, MarchDate.dayNumber]
  set z := days + 719468 with hz
  set century := min (z % 146097 / 36524) 3 with hcentury
  set doc := z % 146097 - century * 36524 with hdoc
  set year := min (doc % 1461 / 365) 3 with hyear
  have hc : 0 ≤ century ∧ century ≤ 3 := by omega
  have hq : 0 ≤ doc / 1461 ∧ doc / 1461 ≤ 24 := by omega
  have hy : 0 ≤ year ∧ year ≤ 3 := by omega
  obtain ⟨he, hc', hq', hy'⟩ := year_parts (e := z / 146097) hc hq hy
  rw [he, hc', hq', hy']
  omega

theorem march_civil {c : MarchDate} (h0 : 0 ≤ c.doy) (h1 : c.doy ≤ 365) : c.civil.march = c := by
  obtain ⟨year, doy⟩ := c
  simp only at h0 h1
  simp only [MarchDate.civil, CivilDate.march, MarchDate.mk.injEq]
  split_ifs <;> omega

theorem civilDate_injective : Function.Injective civilDate := by
  have hinv : Function.LeftInverse (fun c : CivilDate => c.march.dayNumber) civilDate := by
    intro days
    obtain ⟨h0, h1⟩ := doy_marchDate days
    simp only [civilDate, march_civil h0 h1, dayNumber_marchDate]
  exact Function.LeftInverse.injective hinv

/-- A year as `toISOString` writes it. -/
def isoYear (y : ℤ) : JsString :=
  if 0 ≤ y ∧ y ≤ 9999 then paddedDecimal 4 y.toNat
  else if 0 ≤ y then 0x2B :: paddedDecimal 6 y.toNat
  else 0x2D :: paddedDecimal 6 (-y).toNat

/-- `date.toISOString()` for a valid time value. -/
def toISOString (t : ℤ) : JsString :=
  let c := civilDate (t / 86400000)
  let ms := (t % 86400000).toNat
  isoYear c.year ++ js "-" ++ paddedDecimal 2 c.month.toNat ++ js "-" ++
    paddedDecimal 2 c.day.toNat ++ js "T" ++ paddedDecimal 2 (ms / 3600000) ++ js ":" ++
    paddedDecimal 2 (ms / 60000 % 60) ++ js ":" ++ paddedDecimal 2 (ms / 1000 % 60) ++ js "." ++
    paddedDecimal 3 (ms % 1000) ++ js "Z"

/-! ## Injectivity -/

/-- A number is read up to the separator after it. -/
theorem paddedDecimal_sep_inj {w m n : ℕ} {c : CodeUnit} {r s : JsString} (hc : ¬ IsDigit c)
    (h : paddedDecimal w m ++ c :: r = paddedDecimal w n ++ c :: s) : m = n ∧ r = s := by
  obtain ⟨hmn, hrs⟩ :=
    readsBack_paddedDecimal w m n _ _ (stops_cons.mpr hc) (stops_cons.mpr hc) h
  exact ⟨hmn, (List.cons.inj hrs).2⟩

/-- The first character of a padded number is a digit. -/
theorem isDigit_head_paddedDecimal {w n : ℕ} {c : CodeUnit} {r s : JsString}
    (h : paddedDecimal w n ++ r = c :: s) : IsDigit c := by
  rcases hd : paddedDecimal w n with _ | ⟨d, ds⟩
  · exact absurd hd (paddedDecimal_ne_nil w n)
  · rw [hd, List.cons_append, List.cons.injEq] at h
    rw [← h.1]
    exact isDigit_of_mem_paddedDecimal (hd ▸ List.mem_cons_self ..)

/-- The year is read up to the dash: its sign, if any, tells the three formats
apart. -/
theorem isoYear_sep_inj {y z : ℤ} {r s : JsString}
    (h : isoYear y ++ 0x2D :: r = isoYear z ++ 0x2D :: s) : y = z ∧ r = s := by
  have hdash : ¬ IsDigit 0x2D := by decide
  have hplus : ¬ IsDigit 0x2B := by decide
  unfold isoYear at h
  split_ifs at h with hy hz hz' hy' hz hz' hz hz'
  · obtain ⟨hn, hr⟩ := paddedDecimal_sep_inj hdash h
    exact ⟨by omega, hr⟩
  · exact absurd (isDigit_head_paddedDecimal h) hplus
  · exact absurd (isDigit_head_paddedDecimal h) hdash
  · exact absurd (isDigit_head_paddedDecimal h.symm) hplus
  · rw [List.cons_append, List.cons_append, List.cons.injEq] at h
    obtain ⟨hn, hr⟩ := paddedDecimal_sep_inj hdash h.2
    exact ⟨by omega, hr⟩
  · rw [List.cons_append, List.cons_append, List.cons.injEq] at h
    exact absurd h.1 (by decide)
  · exact absurd (isDigit_head_paddedDecimal h.symm) hdash
  · rw [List.cons_append, List.cons_append, List.cons.injEq] at h
    exact absurd h.1 (by decide)
  · rw [List.cons_append, List.cons_append, List.cons.injEq] at h
    obtain ⟨hn, hr⟩ := paddedDecimal_sep_inj hdash h.2
    exact ⟨by omega, hr⟩

theorem month_day_pos (days : ℤ) : 0 ≤ (civilDate days).month ∧ 0 ≤ (civilDate days).day := by
  obtain ⟨h0, h1⟩ := doy_marchDate days
  simp only [civilDate, MarchDate.civil]
  omega

/-- The date fields determine the date. -/
theorem civilDate_eq_of_fields {a b : ℤ} (hy : (civilDate a).year = (civilDate b).year)
    (hm : (civilDate a).month.toNat = (civilDate b).month.toNat)
    (hd : (civilDate a).day.toNat = (civilDate b).day.toNat) : a = b := by
  obtain ⟨hma, hda⟩ := month_day_pos a
  obtain ⟨hmb, hdb⟩ := month_day_pos b
  apply civilDate_injective
  have hm' : (civilDate a).month = (civilDate b).month := by omega
  have hd' : (civilDate a).day = (civilDate b).day := by omega
  rcases hca : civilDate a with ⟨ya, ma, da⟩
  rcases hcb : civilDate b with ⟨yb, mb, db⟩
  rw [hca, hcb] at hy hm' hd'
  simp only at hy hm' hd'
  rw [hy, hm', hd']

/-- **Time values with the same text are equal.** -/
theorem toISOString_injective : Function.Injective toISOString := by
  intro t u h
  have h' := h
  simp only [toISOString, show js "-" = [0x2D] from rfl, show js "T" = [0x54] from rfl,
    show js ":" = [0x3A] from rfl, show js "." = [0x2E] from rfl,
    show js "Z" = [0x5A] from rfl, List.append_assoc, List.cons_append, List.nil_append] at h'
  obtain ⟨hy, h'⟩ := isoYear_sep_inj h'
  obtain ⟨hm, h'⟩ := paddedDecimal_sep_inj (by decide) h'
  obtain ⟨hd, h'⟩ := paddedDecimal_sep_inj (by decide) h'
  obtain ⟨hh, h'⟩ := paddedDecimal_sep_inj (by decide) h'
  obtain ⟨hmi, h'⟩ := paddedDecimal_sep_inj (by decide) h'
  obtain ⟨hs, h'⟩ := paddedDecimal_sep_inj (by decide) h'
  obtain ⟨hms, -⟩ := paddedDecimal_sep_inj (by decide) h'
  have hdays : t / 86400000 = u / 86400000 := civilDate_eq_of_fields hy hm hd
  omega


end AegCloudDfir
