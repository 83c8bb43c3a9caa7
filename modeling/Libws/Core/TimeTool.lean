import Libws.Lib.Calendar
import Libws.Lib.Word
import Libws.Lib.Zone

/-!
# `ws::core::TimeTool`: days and weeks

Model of `getZeroHourOfTime`, `getFirstDayOfWeek` and `isYesterdayBefore` of `include/ws/core/TimeTool.h`.
Times are milliseconds; `localtime_r` and `mktime` count seconds, and follow the zone that they are given.
Each reading of the system clock is an argument.

* `mktime_LocalTime` — a local date leads back to its time;
* `mktime_zeroHour` — with the three fields at zero, to the start of its day by the offset of its time;
* `comparesDays_iff` — when `isYesterdayBefore` compares calendar days;
* `startsWeek_iff` — when `getFirstDayOfWeek` finds the last midnight of the weekday.
-/

set_option autoImplicit false

namespace Libws.Core.TimeTool

open Calendar

/-- The fields of a `tm` that are read; `localtime_r` does not leave `tm_isdst` unknown. -/
structure Tm where
  tm_sec : Int
  tm_min : Int
  tm_hour : Int
  tm_mday : Int
  tm_mon : Int
  tm_year : Int
  tm_wday : Int
  tm_isdst : Bool
  deriving DecidableEq, Repr

/-- What `getSystemTime` can return: a `time_t` from the epoch on. -/
abbrev SystemTime := {ms : Int // 0 ≤ ms ∧ ms < 2 ^ 63}

def LocalTime (z : Zone) (t : Int) : Tm :=
  let date := civilFromDays (z.day t)
  { tm_sec := z.secondOfDay t % 60
    tm_min := z.secondOfDay t / 60 % 60
    tm_hour := z.secondOfDay t / 3600
    tm_mday := date.day
    tm_mon := date.month - 1
    tm_year := date.year - 1900
    tm_wday := z.weekday t
    tm_isdst := z.dst t }

/-- Of fields in their ranges; daylight saving time is presumed as `tm_isdst` says, whatever is in effect at
    the result. -/
def mktime (z : Zone) (date : Tm) : Int :=
  86400 * daysFromCivil ⟨date.tm_year + 1900, date.tm_mon + 1, date.tm_mday⟩ +
    3600 * date.tm_hour + 60 * date.tm_min + date.tm_sec -
    (z.standard + if date.tm_isdst then 3600 else 0)

def getZeroHourOfTime (z : Zone) (systemTime : SystemTime) (time : UInt64) : UInt64 :=
  let time := if time = 0 then UInt64.ofInt systemTime.1 else time
  let date := LocalTime z (time / 1000).toNat
  let date := { date with tm_hour := 0, tm_min := 0, tm_sec := 0 }
  UInt64.ofInt (mktime z date) * 1000

def getFirstDayOfWeek (z : Zone) (systemTime : SystemTime) (time : UInt64) (startOfWeek : UInt32) : UInt64 :=
  let time := if time = 0 then UInt64.ofInt systemTime.1 else time
  let date := LocalTime z (time / 1000).toNat
  let offset := date.tm_wday - (startOfWeek % 7).toNat
  let offset := if offset < 0 then offset + 7 else offset
  let time := time - UInt64.ofInt offset * 86400000
  let date := LocalTime z (time / 1000).toNat
  let date := { date with tm_hour := 0, tm_min := 0, tm_sec := 0 }
  UInt64.ofInt (mktime z date) * 1000

/-- The clock is read once here, and once more where the helper gets a zero. -/
def isYesterdayBefore (z : Zone) (systemTime again : SystemTime) (time offset : UInt64) : Bool :=
  if time = 0 then true
  else
    let now := UInt64.ofInt systemTime.1
    if time ≥ now then false
    else
      let diff := now - offset - getZeroHourOfTime z again (time - offset)
      diff > 24 * 3600000

/-- The local calendar day of a time in milliseconds. -/
def localDay (z : Zone) (ms : Int) : Int := z.day (ms / 1000)

/-- The millisecond of the midnight that ends a local day of 24 hours. -/
def dayEnd (z : Zone) (ms : Int) : Int := 1000 * (z.dayStart (ms / 1000) + 86400)

def ComparesDays (z : Zone) (now again : SystemTime) (time offset : UInt64) : Prop :=
  isYesterdayBefore z now again time offset = true ↔
    localDay z (time.toNat - offset.toNat) < localDay z (now.1 - offset.toNat)

/-- Where `isYesterdayBefore` tells the day of `time - offset` from that of `now - offset`. -/
structure Comparable (z : Zone) (now again : SystemTime) (time offset : UInt64) : Prop where
  /-- `now - offset` is not the midnight that ends the earlier day. -/
  notMidnight : time ≠ offset → now.1 - offset.toNat ≠ dayEnd z (time.toNat - offset.toNat)
  /-- For a zero the helper takes the second reading, on a day that stands in for the first one … -/
  firstDay : time = offset → localDay z (now.1 - offset.toNat) = localDay z 0 → localDay z again.1 = localDay z 0
  /-- … or else for any day before that of `now - offset`. -/
  laterDay : time = offset → localDay z (now.1 - offset.toNat) ≠ localDay z 0 →
    localDay z again.1 ≠ localDay z (now.1 - offset.toNat) ∧ now.1 - offset.toNat ≠ dayEnd z again.1

instance {z : Zone} {now again : SystemTime} {time offset : UInt64} :
    Decidable (ComparesDays z now again time offset) :=
  inferInstanceAs (Decidable (_ ↔ _))

/-- The days since the last day of a weekday. -/
def daysSince (z : Zone) (t weekday : Int) : Int := (z.weekday t - weekday) % 7

/-- As many times 24 hours before. -/
def stepBack (z : Zone) (t weekday : Int) : Int := t - 86400 * daysSince z t weekday

/-- When the last day of a weekday began, by the offset at `stepBack`. -/
def weekStart (z : Zone) (t weekday : Int) : Int :=
  Zone.start (z.day t - daysSince z t weekday) (z.offset (stepBack z t weekday))

/-- The result is the last midnight up to `time` that is on the weekday. -/
def StartsWeek (z : Zone) (time : UInt64) (startOfWeek : UInt32) (result : UInt64) : Prop :=
  ∃ r : Int, (result.toNat : Int) = 1000 * r ∧ z.IsMidnight r ∧ z.weekday r = startOfWeek.toNat % 7 ∧
    1000 * r ≤ time.toNat ∧
    ∀ m, z.IsMidnight m → z.weekday m = startOfWeek.toNat % 7 → 1000 * m ≤ time.toNat → m ≤ r

/-- The clock is changed nowhere that shows in the start of the week. -/
structure SteadyWeek (z : Zone) (t weekday : Int) : Prop where
  /-- Steps of 24 hours lead to the day. -/
  sameDay : z.day (stepBack z t weekday) = z.day t - daysSince z t weekday
  /-- Its midnight has the offset of the time that they lead to. -/
  sameOffset : z.dst (weekStart z t weekday) = z.dst (stepBack z t weekday)
  /-- The clock does not show this midnight again. -/
  notRepeated : ¬(z.dst (weekStart z t weekday) = true ∧ z.dst (weekStart z t weekday + 3600) = false ∧
    weekStart z t weekday + 3600 ≤ t)
  /-- The clock has not been set back over the midnight a week later. -/
  notBegun : ¬(daysSince z t weekday = 6 ∧ z.dst t = false ∧
    z.dst (Zone.start (z.day t + 1) (z.standard + 3600)) = true ∧ Zone.start (z.day t + 1) (z.standard + 3600) ≤ t)

/-! ## Dates -/

theorem daysFromCivil_LocalTime (z : Zone) (t : Int) :
    daysFromCivil ⟨(LocalTime z t).tm_year + 1900, (LocalTime z t).tm_mon + 1,
      (LocalTime z t).tm_mday⟩ = z.day t := by
  simp only [LocalTime, Int.sub_add_cancel]
  exact daysFromCivil_civilFromDays (z.day t)

/-- What `mktime` takes off is the offset that was in effect. -/
theorem isdst_LocalTime (z : Zone) (t : Int) :
    (z.standard + if (LocalTime z t).tm_isdst then 3600 else 0) = z.offset t := rfl

/-- Hours, minutes and seconds make up the seconds of a day. -/
theorem hms (s : Int) : 3600 * (s / 3600) + 60 * (s / 60 % 60) + s % 60 = s := by
  have hhour : s / 3600 = s / 60 / 60 := by omega
  rw [hhour]
  omega

theorem mktime_LocalTime (z : Zone) (t : Int) : mktime z (LocalTime z t) = t := by
  have hhms := hms (z.secondOfDay t)
  calc mktime z (LocalTime z t)
      = 86400 * z.day t + z.secondOfDay t - z.offset t := by
        simp only [mktime, daysFromCivil_LocalTime, isdst_LocalTime]
        simp only [LocalTime]
        omega
    _ = t := by
        have hadd := z.dayStart_add t
        simp only [Zone.dayStart, Zone.start] at hadd
        omega

theorem mktime_zeroHour (z : Zone) (t : Int) :
    mktime z { LocalTime z t with tm_hour := 0, tm_min := 0, tm_sec := 0 } = z.dayStart t := by
  simp only [mktime, daysFromCivil_LocalTime, isdst_LocalTime, Zone.dayStart, Zone.start]
  omega

/-! ## Words -/

/-- The time of which the helper takes the zero hour. -/
def timeOrNow (systemTime : SystemTime) (time : UInt64) : Int :=
  if time = 0 then systemTime.1 else time.toNat

theorem timeOrNow_toNat (systemTime : SystemTime) (time : UInt64) :
    ((if time = 0 then UInt64.ofInt systemTime.1 else time).toNat : Int) = timeOrNow systemTime time := by
  obtain ⟨ms, hnonneg, hlt⟩ := systemTime
  simp only [timeOrNow]
  split
  · rw [Word.toNat_ofInt]
    omega
  · rfl

theorem getZeroHourOfTime_toNat (z : Zone) (systemTime : SystemTime) (time : UInt64) :
    ((getZeroHourOfTime z systemTime time).toNat : Int) =
      1000 * z.dayStart (timeOrNow systemTime time / 1000) % 2 ^ 64 := by
  have htime := timeOrNow_toNat systemTime time
  have hofInt := Word.toNat_ofInt (z.dayStart (timeOrNow systemTime time / 1000))
  simp only [getZeroHourOfTime, mktime_zeroHour, UInt64.toNat_mul, UInt64.toNat_div, UInt64.reduceToNat,
    Int.natCast_ediv, Int.cast_ofNat_Int, htime]
  omega

theorem timeOrNow_nonneg (systemTime : SystemTime) (time : UInt64) : 0 ≤ timeOrNow systemTime time := by
  simp only [timeOrNow]
  split
  · exact systemTime.2.1
  · exact Int.natCast_nonneg _

theorem timeOrNow_lt (systemTime : SystemTime) {time : UInt64} (h : time.toNat < 2 ^ 63) :
    timeOrNow systemTime time < 2 ^ 63 := by
  simp only [timeOrNow]
  split
  · exact systemTime.2.2
  · omega

/-- In every zone: the day of the helper's time is left behind by more than its 24 hours, or is not reached, where
    the difference wraps. -/
theorem isYesterdayBefore_iff (z : Zone) {now again : SystemTime} {time offset : UInt64} (hpos : 0 < time)
    (hnow : (time.toNat : Int) < now.1) (hoffset : offset ≤ time) :
    isYesterdayBefore z now again time offset = true ↔
      now.1 - offset.toNat < 1000 * z.dayStart (timeOrNow again (time - offset) / 1000) ∨
      1000 * z.dayStart (timeOrNow again (time - offset) / 1000) + 86400000 < now.1 - offset.toNat := by
  obtain ⟨ms, hms₀, hms₁⟩ := now
  simp only at hnow ⊢
  have hofInt := Word.toNat_ofInt ms
  have hzero : time ≠ 0 := by
    rintro rfl
    exact absurd hpos (by decide)
  have hlt : ¬time ≥ UInt64.ofInt ms := by
    rw [ge_iff_le, UInt64.le_iff_toNat_le]
    omega
  have hle : offset.toNat ≤ time.toNat := UInt64.le_iff_toNat_le.1 hoffset
  have hsub : (time - offset).toNat = time.toNat - offset.toNat := UInt64.toNat_sub_of_le _ _ hoffset
  have hhelper := getZeroHourOfTime_toNat z again (time - offset)
  have htime₀ := timeOrNow_nonneg again (time - offset)
  have htime₁ : timeOrNow again (time - offset) < 2 ^ 63 := timeOrNow_lt again (by omega)
  have hstart := z.dayStart_le (timeOrNow again (time - offset) / 1000)
  have hstart' := z.lt_dayStart_add (timeOrNow again (time - offset) / 1000)
  simp only [isYesterdayBefore, if_neg hzero, if_neg hlt, decide_eq_true_eq, gt_iff_lt, UInt64.lt_iff_toNat_lt,
    UInt64.toNat_sub, UInt64.reduceToNat, UInt64.reduceMul]
  omega

/-! ## Days in a fixed offset -/

theorem localDay_lt_iff (standard x y : Int) :
    localDay (Zone.fixed standard) x < localDay (Zone.fixed standard) y ↔
      x < 1000 * (Zone.fixed standard).dayStart (y / 1000) := by
  rw [localDay, localDay, Zone.day_lt_day_fixed_iff]
  omega

theorem localDay_lt_iff_dayEnd (standard x y : Int) :
    localDay (Zone.fixed standard) x < localDay (Zone.fixed standard) y ↔ dayEnd (Zone.fixed standard) x ≤ y := by
  rw [localDay, localDay, dayEnd, Zone.day_lt_day_fixed_iff_le]
  omega

theorem localDay_mono (standard : Int) {x y : Int} (h : x ≤ y) :
    localDay (Zone.fixed standard) x ≤ localDay (Zone.fixed standard) y := by
  apply Int.not_lt.1
  intro hlt
  rw [localDay_lt_iff] at hlt
  have hle := (Zone.fixed standard).dayStart_le (x / 1000)
  omega

theorem isYesterdayBefore_fixed_iff (standard : Int) {now again : SystemTime} {time offset : UInt64}
    (hpos : 0 < time) (hnow : (time.toNat : Int) < now.1) (hoffset : offset ≤ time) :
    isYesterdayBefore (Zone.fixed standard) now again time offset = true ↔
      localDay (Zone.fixed standard) (now.1 - offset.toNat) <
        localDay (Zone.fixed standard) (timeOrNow again (time - offset)) ∨
      dayEnd (Zone.fixed standard) (timeOrNow again (time - offset)) < now.1 - offset.toNat := by
  rw [isYesterdayBefore_iff _ hpos hnow hoffset, localDay_lt_iff, dayEnd]
  omega

/-- Two times that are compared. -/
theorem comparesDays_lt_iff (standard : Int) (now again : SystemTime) {time offset : UInt64} (hpos : 0 < time)
    (hnow : (time.toNat : Int) < now.1) (hoffset : offset ≤ time) (hne : time ≠ offset) :
    ComparesDays (Zone.fixed standard) now again time offset ↔
      now.1 - offset.toNat ≠ dayEnd (Zone.fixed standard) (time.toNat - offset.toNat) := by
  have hsub : ((time - offset).toNat : Int) = time.toNat - offset.toNat := by
    have hle : offset.toNat ≤ time.toNat := UInt64.le_iff_toNat_le.1 hoffset
    rw [UInt64.toNat_sub_of_le _ _ hoffset]
    omega
  have hzero : time - offset ≠ 0 := by
    intro hzero
    rw [hzero, UInt64.toNat_zero] at hsub
    exact hne (UInt64.toNat_inj.1 (by omega))
  have hmono := localDay_mono standard (show (time.toNat : Int) - offset.toNat ≤ now.1 - offset.toNat by omega)
  have hlt := localDay_lt_iff_dayEnd standard (time.toNat - offset.toNat) (now.1 - offset.toNat)
  rw [ComparesDays, isYesterdayBefore_fixed_iff standard hpos hnow hoffset, timeOrNow, if_neg hzero, hsub]
  omega

/-- The time zero, in whose place the second reading is compared. -/
theorem comparesDays_self_iff (standard : Int) (now again : SystemTime) {time : UInt64} (hpos : 0 < time)
    (hnow : (time.toNat : Int) < now.1) :
    ComparesDays (Zone.fixed standard) now again time time ↔
      (localDay (Zone.fixed standard) (now.1 - time.toNat) = localDay (Zone.fixed standard) 0 →
        localDay (Zone.fixed standard) again.1 = localDay (Zone.fixed standard) 0) ∧
      (localDay (Zone.fixed standard) (now.1 - time.toNat) ≠ localDay (Zone.fixed standard) 0 →
        localDay (Zone.fixed standard) again.1 ≠ localDay (Zone.fixed standard) (now.1 - time.toNat) ∧
          now.1 - time.toNat ≠ dayEnd (Zone.fixed standard) again.1) := by
  have hmono := localDay_mono standard (show (0 : Int) ≤ now.1 - time.toNat by omega)
  have hmono' := localDay_mono standard again.2.1
  have hlt := localDay_lt_iff_dayEnd standard again.1 (now.1 - time.toNat)
  rw [ComparesDays, isYesterdayBefore_fixed_iff standard hpos hnow (UInt64.le_refl time), UInt64.sub_self, timeOrNow,
    if_pos rfl, Int.sub_self]
  omega

/-- **Calendar days** are compared except at the midnight that ends the earlier day, and except where `time` and
    `offset` are equal, where the helper is given a zero and takes it for the current time. -/
theorem comparesDays_iff (standard : Int) (now again : SystemTime) (time offset : UInt64) (hpos : 0 < time)
    (hnow : (time.toNat : Int) < now.1) (hoffset : offset ≤ time) :
    ComparesDays (Zone.fixed standard) now again time offset ↔
      Comparable (Zone.fixed standard) now again time offset := by
  by_cases heq : time = offset
  · subst heq
    rw [comparesDays_self_iff standard now again hpos hnow]
    constructor
    · rintro ⟨hfirst, hlater⟩
      exact ⟨fun hne => absurd rfl hne, fun _ => hfirst, fun _ => hlater⟩
    · intro h
      exact ⟨h.firstDay rfl, h.laterDay rfl⟩
  · rw [comparesDays_lt_iff standard now again hpos hnow hoffset heq]
    constructor
    · intro hmidnight
      exact ⟨fun _ => hmidnight, fun he => absurd he heq, fun he => absurd he heq⟩
    · intro h
      exact h.notMidnight heq

/-- A minute past midnight, eight hours ahead of UTC. -/
theorem comparesDays_past_midnight :
    ComparesDays (Zone.fixed 28800) ⟨1700064060000, by decide⟩ ⟨1700064060000, by decide⟩ 1700000000000 0 :=
  (comparesDays_iff 28800 ⟨1700064060000, by decide⟩ ⟨1700064060000, by decide⟩ 1700000000000 0
    (by decide) (by decide) (by decide)).2 ⟨by decide, by decide, by decide⟩

/-- At midnight sharp the day before is not yesterday yet. -/
theorem midnight_not_yesterday :
    ¬ComparesDays (Zone.fixed 0) ⟨1700006400000, by decide⟩ ⟨1700006400000, by decide⟩ 1700000000000 0 := by
  decide

/-! ## Weeks -/

theorem daysSince_bounds (z : Zone) (t weekday : Int) : 0 ≤ daysSince z t weekday ∧ daysSince z t weekday ≤ 6 := by
  unfold daysSince
  omega

/-- Steps of 24 hours miss the day by one at most. -/
theorem day_stepBack (z : Zone) (t weekday : Int) :
    z.day t - daysSince z t weekday - 1 ≤ z.day (stepBack z t weekday) ∧
      z.day (stepBack z t weekday) ≤ z.day t - daysSince z t weekday + 1 := by
  have hle := z.offset_le t (stepBack z t weekday)
  have hle' := z.offset_le (stepBack z t weekday) t
  generalize hk : daysSince z t weekday = k at *
  simp only [Zone.day, Zone.wall]
  simp only [stepBack, hk] at hle hle' ⊢
  omega

theorem weekStart_of_sameDay {z : Zone} {t weekday : Int}
    (h : z.day (stepBack z t weekday) = z.day t - daysSince z t weekday) :
    weekStart z t weekday = z.dayStart (stepBack z t weekday) := by
  rw [weekStart, Zone.dayStart, h]

/-- The steps lead to the weekday if and only if they do not miss the day. -/
theorem sameDay_iff {z : Zone} {t weekday : Int} (h₀ : 0 ≤ weekday) (h₇ : weekday < 7) :
    z.day (stepBack z t weekday) = z.day t - daysSince z t weekday ↔
      z.weekday (stepBack z t weekday) = weekday := by
  obtain ⟨hge, hle⟩ := day_stepBack z t weekday
  simp only [daysSince, Zone.weekday] at hge hle ⊢
  omega

theorem dayStart_stepBack_le (z : Zone) (t weekday : Int) : z.dayStart (stepBack z t weekday) ≤ t := by
  obtain ⟨hk₀, -⟩ := daysSince_bounds z t weekday
  have hle := z.dayStart_le (stepBack z t weekday)
  simp only [stepBack] at hle ⊢
  omega

/-- What is left to ask of a midnight of the right day. -/
theorem isLastMidnight_weekStart_iff {z : Zone} {t weekday : Int} (h₀ : 0 ≤ weekday) (h₇ : weekday < 7)
    (hsame : z.day (stepBack z t weekday) = z.day t - daysSince z t weekday)
    (hmid : z.IsMidnight (weekStart z t weekday))
    (hday : z.day (weekStart z t weekday) = z.day (stepBack z t weekday)) :
    z.IsLastMidnight weekday t (weekStart z t weekday) ↔
      ¬(z.dst (weekStart z t weekday) = true ∧ z.dst (weekStart z t weekday + 3600) = false ∧
        weekStart z t weekday + 3600 ≤ t) ∧
      ¬(daysSince z t weekday = 6 ∧ z.dst t = false ∧
        z.dst (Zone.start (z.day t + 1) (z.standard + 3600)) = true ∧
        Zone.start (z.day t + 1) (z.standard + 3600) ≤ t) := by
  obtain ⟨-, hk₆⟩ := daysSince_bounds z t weekday
  have hle := dayStart_stepBack_le z t weekday
  rw [← weekStart_of_sameDay hsame] at hle
  have hweekday : z.weekday (weekStart z t weekday) = weekday := by
    rw [Zone.weekday, hday]
    exact (sameDay_iff h₀ h₇).1 hsame
  have hlast := Zone.isLastMidnight_iff hmid hle (by omega)
  rw [hweekday, hday, hsame] at hlast
  rw [hlast]
  apply and_congr_right'
  apply not_congr
  constructor
  · rintro ⟨hk, hnext⟩
    have hk : daysSince z t weekday = 6 := by omega
    rw [hk, show z.day t - 6 + 7 = z.day t + 1 by omega] at hnext
    exact ⟨hk, hnext⟩
  · rintro ⟨hk, hnext⟩
    rw [hk, show z.day t - 6 + 7 = z.day t + 1 by omega]
    exact ⟨by omega, hnext⟩

/-- **The start of the day that the steps lead to**, as the last midnight of the weekday. -/
theorem isLastMidnight_dayStart_iff {z : Zone} {t weekday : Int} (h₀ : 0 ≤ weekday) (h₇ : weekday < 7) :
    z.IsLastMidnight weekday t (z.dayStart (stepBack z t weekday)) ↔ SteadyWeek z t weekday := by
  constructor
  · intro h
    have hoff := Zone.isMidnight_start_iff.1 h.isMidnight
    have hday : z.day (z.dayStart (stepBack z t weekday)) = z.day (stepBack z t weekday) := Zone.day_start hoff
    have hweekday : z.weekday (stepBack z t weekday) = weekday := by
      rw [Zone.weekday, ← hday]
      exact h.weekday_eq
    have hsame := (sameDay_iff h₀ h₇).2 hweekday
    have hstart := weekStart_of_sameDay hsame
    have hmid := h.isMidnight
    rw [← hstart] at h hday hmid
    obtain ⟨hrepeated, hbegun⟩ := (isLastMidnight_weekStart_iff h₀ h₇ hsame hmid hday).1 h
    refine ⟨hsame, ?_, hrepeated, hbegun⟩
    rw [hstart]
    exact Zone.offset_eq_iff.1 hoff
  · intro h
    have hstart := weekStart_of_sameDay h.sameDay
    have hoff := Zone.offset_eq_iff.2 h.sameOffset
    rw [hstart] at hoff
    have hmid : z.IsMidnight (z.dayStart (stepBack z t weekday)) := Zone.isMidnight_start hoff
    have hday : z.day (z.dayStart (stepBack z t weekday)) = z.day (stepBack z t weekday) := Zone.day_start hoff
    rw [← hstart] at hmid hday ⊢
    exact (isLastMidnight_weekStart_iff h₀ h₇ h.sameDay hmid hday).2 ⟨h.notRepeated, h.notBegun⟩

/-- The days to step back, as `getFirstDayOfWeek` computes them. -/
theorem daysSince_eq (z : Zone) (t : Int) (startOfWeek : UInt32) :
    (if (LocalTime z t).tm_wday - (startOfWeek % 7).toNat <
      0 then (LocalTime z t).tm_wday - (startOfWeek % 7).toNat + 7
      else (LocalTime z t).tm_wday - (startOfWeek % 7).toNat) = daysSince z t (startOfWeek.toNat % 7) := by
  simp only [LocalTime, daysSince, Zone.weekday, UInt32.toNat_mod, UInt32.reduceToNat, Int.natCast_emod,
    Int.cast_ofNat_Int]
  split <;> omega

/-- Stepping back does not wrap from eight days after the epoch on. -/
theorem toNat_stepBack (z : Zone) {time : UInt64} (startOfWeek : Int) (htime : 691200000 ≤ time) :
    (((time - UInt64.ofInt (daysSince z (time.toNat / 1000) startOfWeek) * 86400000) / 1000).toNat : Int) =
      stepBack z (time.toNat / 1000) startOfWeek := by
  obtain ⟨hk₀, hk₆⟩ := daysSince_bounds z (time.toNat / 1000) startOfWeek
  have hofInt := Word.toNat_ofInt (daysSince z (time.toNat / 1000) startOfWeek)
  rw [Int.emod_eq_of_lt hk₀ (by omega)] at hofInt
  have htime : 691200000 ≤ time.toNat := UInt64.le_iff_toNat_le.1 htime
  have hmul : (UInt64.ofInt (daysSince z (time.toNat / 1000) startOfWeek) * 86400000).toNat =
      (UInt64.ofInt (daysSince z (time.toNat / 1000) startOfWeek)).toNat * 86400000 := by
    rw [UInt64.toNat_mul]
    exact Nat.mod_eq_of_lt (by simp only [UInt64.reduceToNat]; omega)
  rw [UInt64.toNat_div, UInt64.toNat_sub_of_le _ _ (UInt64.le_iff_toNat_le.2 (by omega)), hmul, stepBack]
  simp only [UInt64.reduceToNat]
  omega

theorem getFirstDayOfWeek_toNat (z : Zone) (systemTime : SystemTime) {time : UInt64} (startOfWeek : UInt32)
    (htime : 691200000 ≤ time) :
    ((getFirstDayOfWeek z systemTime time startOfWeek).toNat : Int) =
      1000 * z.dayStart (stepBack z (time.toNat / 1000) (startOfWeek.toNat % 7)) := by
  have hzero : time ≠ 0 := by
    rintro rfl
    exact absurd htime (by decide)
  have hback := toNat_stepBack z (startOfWeek.toNat % 7) htime
  have hofInt := Word.toNat_ofInt (z.dayStart (stepBack z (time.toNat / 1000) (startOfWeek.toNat % 7)))
  have hseconds : ((time / 1000).toNat : Int) = time.toNat / 1000 := by
    simp only [UInt64.toNat_div, UInt64.reduceToNat, Int.natCast_ediv, Int.cast_ofNat_Int]
  simp only [getFirstDayOfWeek, if_neg hzero, mktime_zeroHour, hseconds, daysSince_eq, hback, UInt64.toNat_mul,
    UInt64.reduceToNat]
  -- The day begins between the epoch and the time itself.
  obtain ⟨-, hk₆⟩ := daysSince_bounds z (time.toNat / 1000) (startOfWeek.toNat % 7)
  have hle := dayStart_stepBack_le z (time.toNat / 1000) (startOfWeek.toNat % 7)
  have hlt := z.lt_dayStart_add (stepBack z (time.toNat / 1000) (startOfWeek.toNat % 7))
  have htime : 691200000 ≤ time.toNat := UInt64.le_iff_toNat_le.1 htime
  have htime' := time.toNat_lt
  simp only [stepBack] at hlt hle hofInt ⊢
  omega

/-- **The start of the week** is found except where the clock is changed in between. -/
theorem startsWeek_iff (z : Zone) (systemTime : SystemTime) (time : UInt64) (startOfWeek : UInt32)
    (htime : 691200000 ≤ time) :
    StartsWeek z time startOfWeek (getFirstDayOfWeek z systemTime time startOfWeek) ↔
      SteadyWeek z (time.toNat / 1000) (startOfWeek.toNat % 7) := by
  rw [← isLastMidnight_dayStart_iff (by omega) (by omega), StartsWeek,
    getFirstDayOfWeek_toNat z systemTime startOfWeek htime]
  constructor
  · rintro ⟨r, hr, hmid, hweekday, hle, hlast⟩
    obtain rfl : r = z.dayStart (stepBack z (time.toNat / 1000) (startOfWeek.toNat % 7)) := by omega
    refine ⟨hmid, hweekday, by omega, ?_⟩
    intro m hm hmweekday hmle
    exact hlast m hm hmweekday (by omega)
  · intro h
    refine ⟨_, rfl, h.isMidnight, h.weekday_eq, ?_, ?_⟩
    · have hle := h.le
      omega
    · intro m hm hmweekday hmle
      exact h.last m hm hmweekday (by omega)

/-- An hour ahead of UTC, with daylight saving time from the last Sunday of March 2024 to the one of October. -/
def summer2024 : Zone :=
  { standard := 3600, dst := fun t => 1711846800 ≤ t ∧ t < 1729990800 }

/-- A Wednesday in July. -/
theorem startsWeek_july :
    StartsWeek summer2024 1720000000000 1 (getFirstDayOfWeek summer2024 ⟨0, by decide⟩ 1720000000000 1) :=
  (startsWeek_iff summer2024 ⟨0, by decide⟩ 1720000000000 1 (by decide)).2
    ⟨by decide, by decide, by decide, by decide⟩

/-- On the Monday after the clock was set forward, half an hour past midnight, the week begins on Saturday. -/
theorem monday_week_starts_on_saturday :
    ¬StartsWeek summer2024 1711924200000 0 (getFirstDayOfWeek summer2024 ⟨0, by decide⟩ 1711924200000 0) := by
  rintro ⟨r, hr, -, hweekday, -⟩
  have hsaturday : (getFirstDayOfWeek summer2024 ⟨0, by decide⟩ 1711924200000 0).toNat = 1711753200000 := by decide
  obtain rfl : r = 1711753200 := by omega
  exact absurd hweekday (by decide)

end Libws.Core.TimeTool
