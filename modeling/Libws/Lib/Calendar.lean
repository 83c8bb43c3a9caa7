/-!
# Days and civil dates

The proleptic Gregorian calendar on the days since 1970-01-01.  Years are counted from March, so
that the day that leap years add is the last one; a date is then an era of 400 years, a century, a
cycle of four years, a year of the cycle, and a day of that year.

* `civilFromDays`, `daysFromCivil` — the two conversions;
* `civilFromDays_bounds` — months and days are in their ranges;
* `daysFromCivil_civilFromDays` — the way back from a day to its date.
-/

set_option autoImplicit false

namespace Libws.Calendar

structure Civil where
  year : Int
  month : Int
  day : Int
  deriving DecidableEq, Repr

/-- The year of an era that a day of the era is in; the last century, and the last year of a cycle, may
    have one day more. -/
def yearOfEra (doe : Int) : Int :=
  let century := min (doe / 36524) 3
  let doc := doe - 36524 * century
  100 * century + 4 * (doc / 1461) + min (doc % 1461 / 365) 3

/-- The days of an era in front of a year of it. -/
def daysBefore (yoe : Int) : Int := 365 * yoe + yoe / 4 - yoe / 100

/-- The days of a year in front of a month of it, both from March. -/
def daysBeforeMonth (mp : Int) : Int := (153 * mp + 2) / 5

/-- January and February are the last two months of a year from March. -/
def monthFromMarch (mp : Int) : Int := if mp < 10 then mp + 3 else mp - 9

def monthToMarch (month : Int) : Int := if month > 2 then month - 3 else month + 9

/-- A civil year begins in the year from March before. -/
def yearShift (month : Int) : Int := if month ≤ 2 then 1 else 0

def civilFromDays (z : Int) : Civil :=
  let doe := (z + 719468) % 146097
  let yoe := yearOfEra doe
  let doy := doe - daysBefore yoe
  let mp := (5 * doy + 2) / 153
  { year := yoe + (z + 719468) / 146097 * 400 + yearShift (monthFromMarch mp)
    month := monthFromMarch mp
    day := doy - daysBeforeMonth mp + 1 }

def daysFromCivil (c : Civil) : Int :=
  let y := c.year - yearShift c.month
  let doy := daysBeforeMonth (monthToMarch c.month) + c.day - 1
  y / 400 * 146097 + (daysBefore (y % 400) + doy) - 719468

/-- A year in terms of its century, its cycle and its place there. -/
theorem daysBefore_eq {c q r : Int} (hq₀ : 0 ≤ q) (hq₁ : q ≤ 24) (hr₀ : 0 ≤ r) (hr₁ : r ≤ 3) :
    daysBefore (100 * c + 4 * q + r) = 36524 * c + 1461 * q + 365 * r := by
  unfold daysBefore
  omega

/-- The year of the era, and the day of that year. -/
theorem yearOfEra_spec {doe : Int} (h₀ : 0 ≤ doe) (h₁ : doe < 146097) :
    0 ≤ yearOfEra doe ∧ yearOfEra doe < 400 ∧ 0 ≤ doe - daysBefore (yearOfEra doe) ∧
      doe - daysBefore (yearOfEra doe) ≤ 365 := by
  simp only [yearOfEra]
  generalize hc : min (doe / 36524) 3 = c
  generalize hq : (doe - 36524 * c) / 1461 = q
  generalize hr : min ((doe - 36524 * c) % 1461 / 365) 3 = r
  have hq₀ : 0 ≤ q := by omega
  have hq₁ : q ≤ 24 := by omega
  have hr₀ : 0 ≤ r := by omega
  have hr₁ : r ≤ 3 := by omega
  rw [daysBefore_eq hq₀ hq₁ hr₀ hr₁]
  omega

/-- The month of a year, and the day of that month. -/
theorem month_spec {doy : Int} (h₀ : 0 ≤ doy) (h₁ : doy ≤ 365) :
    0 ≤ (5 * doy + 2) / 153 ∧ (5 * doy + 2) / 153 < 12 ∧
      0 ≤ doy - daysBeforeMonth ((5 * doy + 2) / 153) ∧ doy - daysBeforeMonth ((5 * doy + 2) / 153) ≤ 30 := by
  unfold daysBeforeMonth
  omega

theorem monthFromMarch_spec {mp : Int} (h₀ : 0 ≤ mp) (h₁ : mp < 12) :
    1 ≤ monthFromMarch mp ∧ monthFromMarch mp ≤ 12 ∧ monthToMarch (monthFromMarch mp) = mp := by
  unfold monthToMarch monthFromMarch
  split <;> split <;> omega

theorem civilFromDays_bounds (z : Int) :
    1 ≤ (civilFromDays z).month ∧ (civilFromDays z).month ≤ 12 ∧ 1 ≤ (civilFromDays z).day ∧
      (civilFromDays z).day ≤ 31 := by
  have hdoe₀ : 0 ≤ (z + 719468) % 146097 := by omega
  have hdoe₁ : (z + 719468) % 146097 < 146097 := by omega
  obtain ⟨-, -, hdoy₀, hdoy₁⟩ := yearOfEra_spec hdoe₀ hdoe₁
  obtain ⟨hmp₀, hmp₁, hday₀, hday₁⟩ := month_spec hdoy₀ hdoy₁
  obtain ⟨hmonth₀, hmonth₁, -⟩ := monthFromMarch_spec hmp₀ hmp₁
  refine ⟨hmonth₀, hmonth₁, ?_, ?_⟩
  · simp only [civilFromDays]
    omega
  · simp only [civilFromDays]
    omega

/-- **A day is the day of its date.** -/
theorem daysFromCivil_civilFromDays (z : Int) : daysFromCivil (civilFromDays z) = z := by
  have hdoe₀ : 0 ≤ (z + 719468) % 146097 := by omega
  have hdoe₁ : (z + 719468) % 146097 < 146097 := by omega
  obtain ⟨hyoe₀, hyoe₁, hdoy₀, hdoy₁⟩ := yearOfEra_spec hdoe₀ hdoe₁
  obtain ⟨hmp₀, hmp₁, -, -⟩ := month_spec hdoy₀ hdoy₁
  obtain ⟨-, -, hback⟩ := monthFromMarch_spec hmp₀ hmp₁
  simp only [daysFromCivil, civilFromDays]
  rw [hback, Int.add_sub_cancel, Int.add_mul_ediv_right _ _ (by decide), Int.ediv_eq_zero_of_lt hyoe₀ hyoe₁, Int.zero_add,
    Int.add_mul_emod_self_right, Int.emod_eq_of_lt hyoe₀ hyoe₁]
  omega

end Libws.Calendar
