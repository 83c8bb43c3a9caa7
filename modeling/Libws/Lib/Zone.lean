/-!
# Time zones

Instants are seconds since 1970-01-01 00:00:00 UTC.  A zone has a standard offset, and at each instant
daylight saving time, an hour more, is in effect or not; nothing is said about when it changes.

* `dayStart_le`, `lt_dayStart_add` — the local day that an instant is on, by the offset at the instant;
* `isMidnight_start_iff` — the start of a day is a local midnight where its offset is in effect then;
* `isLastMidnight_iff` — when a midnight is the last one of its weekday;
* `day_lt_day_fixed_iff`, `day_lt_day_fixed_iff_le` — in a fixed offset the days are told apart by the start of
  the later one, and by 86400 seconds since the start of the earlier one.
-/

set_option autoImplicit false

namespace Libws

structure Zone where
  standard : Int
  dst : Int → Bool

namespace Zone

/-- The zone in which the offset never changes. -/
def fixed (standard : Int) : Zone := { standard := standard, dst := fun _ => false }

def offset (z : Zone) (t : Int) : Int := z.standard + if z.dst t then 3600 else 0

/-- What the clock on the wall counts. -/
def wall (z : Zone) (t : Int) : Int := t + z.offset t

/-- The local day, counted from 1970-01-01. -/
def day (z : Zone) (t : Int) : Int := z.wall t / 86400

/-- The seconds since the clock on the wall read 00:00:00. -/
def secondOfDay (z : Zone) (t : Int) : Int := z.wall t % 86400

/-- The day of the week, Sunday is 0; day 0 was a Thursday. -/
def weekday (z : Zone) (t : Int) : Int := (z.day t + 4) % 7

/-- The clock on the wall reads 00:00:00. -/
def IsMidnight (z : Zone) (t : Int) : Prop := z.secondOfDay t = 0

/-- When `d` began, by a clock that is `offset` ahead. -/
def start (d offset : Int) : Int := 86400 * d - offset

/-- When the local day of `t` began, by the offset at `t`. -/
def dayStart (z : Zone) (t : Int) : Int := start (z.day t) (z.offset t)

/-- The last midnight of a weekday up to an instant. -/
structure IsLastMidnight (z : Zone) (weekday t r : Int) : Prop where
  isMidnight : z.IsMidnight r
  weekday_eq : z.weekday r = weekday
  le : r ≤ t
  last : ∀ m, z.IsMidnight m → z.weekday m = weekday → m ≤ t → m ≤ r

variable {z : Zone} {t u m : Int}

instance : Decidable (z.IsMidnight t) := inferInstanceAs (Decidable (_ = _))

/-! ## Offsets -/

@[simp] theorem offset_fixed (standard t : Int) : (fixed standard).offset t = standard := by
  simp [fixed, offset]

theorem offset_of_dst (h : z.dst t = true) : z.offset t = z.standard + 3600 := by
  simp [offset, h]

theorem offset_of_not_dst (h : z.dst t = false) : z.offset t = z.standard := by
  simp [offset, h]

theorem offset_eq_iff : z.offset t = z.offset u ↔ z.dst t = z.dst u := by
  cases ht : z.dst t <;> cases hu : z.dst u <;> grind [offset]

/-- Where the offset is larger at one of two instants, only there the hour is added. -/
theorem offset_lt_iff : z.offset t < z.offset u ↔ z.dst t = false ∧ z.dst u = true := by
  cases ht : z.dst t <;> cases hu : z.dst u <;> grind [offset]

theorem offset_le (z : Zone) (t u : Int) : z.offset t ≤ z.offset u + 3600 := by
  unfold offset
  split <;> split <;> omega

/-! ## Days -/

theorem wall_eq (z : Zone) (t : Int) : z.wall t = 86400 * z.day t + z.secondOfDay t :=
  (Int.mul_ediv_add_emod (z.wall t) 86400).symm

theorem secondOfDay_nonneg (z : Zone) (t : Int) : 0 ≤ z.secondOfDay t :=
  Int.emod_nonneg _ (by decide)

theorem secondOfDay_lt (z : Zone) (t : Int) : z.secondOfDay t < 86400 :=
  Int.emod_lt_of_pos _ (by decide)

theorem dayStart_add (z : Zone) (t : Int) : z.dayStart t + z.secondOfDay t = t := by
  have hwall := z.wall_eq t
  simp only [wall] at hwall
  simp only [dayStart, start]
  omega

theorem dayStart_le (z : Zone) (t : Int) : z.dayStart t ≤ t := by
  have hadd := z.dayStart_add t
  have hnonneg := z.secondOfDay_nonneg t
  omega

theorem lt_dayStart_add (z : Zone) (t : Int) : t < z.dayStart t + 86400 := by
  have hadd := z.dayStart_add t
  have hlt := z.secondOfDay_lt t
  omega

/-! ## Midnights -/

theorem isMidnight_iff : z.IsMidnight m ↔ m = start (z.day m) (z.offset m) := by
  have hadd := z.dayStart_add m
  simp only [dayStart] at hadd
  simp only [IsMidnight]
  omega

/-- A start of a day in an offset that is in effect then is a midnight, and on that day. -/
theorem day_start {d o : Int} (h : z.offset (start d o) = o) : z.day (start d o) = d := by
  simp only [day, wall, h]
  simp [start]

theorem isMidnight_start {d o : Int} (h : z.offset (start d o) = o) : z.IsMidnight (start d o) := by
  rw [isMidnight_iff, day_start h, h]

theorem isMidnight_start_iff {d : Int} :
    z.IsMidnight (start d (z.offset t)) ↔ z.offset (start d (z.offset t)) = z.offset t := by
  constructor
  · intro hmid
    rw [IsMidnight, secondOfDay, wall] at hmid
    have hle := z.offset_le t (start d (z.offset t))
    have hle' := z.offset_le (start d (z.offset t)) t
    generalize z.offset (start d (z.offset t)) = o at *
    simp only [start] at hmid
    omega
  · exact isMidnight_start

/-- The next midnight of a day that has two comes when the clock goes back by an hour. -/
theorem second_midnight {r : Int} (hr : z.IsMidnight r) (hm : z.IsMidnight m) (hday : z.day m = z.day r)
    (hlt : r < m) : z.dst r = true ∧ z.dst m = false ∧ m = r + 3600 := by
  rw [isMidnight_iff] at hr hm
  rw [hday] at hm
  simp only [start] at hr hm
  obtain ⟨hmf, hrt⟩ := offset_lt_iff.1 (show z.offset m < z.offset r by omega)
  rw [offset_of_dst hrt] at hr
  rw [offset_of_not_dst hmf] at hm
  exact ⟨hrt, hmf, by omega⟩

/-- Where the clock is set back by an hour to a midnight, it reads 00:00 again. -/
theorem isMidnight_repeated {r : Int} (hr : z.IsMidnight r) (hrt : z.dst r = true)
    (hmf : z.dst (r + 3600) = false) : z.IsMidnight (r + 3600) ∧ z.day (r + 3600) = z.day r := by
  rw [isMidnight_iff, offset_of_dst hrt] at hr
  have hm : r + 3600 = start (z.day r) z.standard := by
    simp only [start] at hr ⊢
    omega
  have hoff : z.offset (start (z.day r) z.standard) = z.standard := by
    rw [← hm]
    exact offset_of_not_dst hmf
  rw [hm]
  exact ⟨isMidnight_start hoff, day_start hoff⟩

/-- A later midnight is on the same day or on a later one. -/
theorem day_le_of_midnight_lt {r : Int} (hr : z.IsMidnight r) (hm : z.IsMidnight m) (hlt : r < m) :
    z.day r ≤ z.day m := by
  have hoff := z.offset_le r m
  rw [isMidnight_iff] at hr hm
  simp only [start] at hr hm
  omega

/-- A midnight up to an instant is on a day up to its own, or on the next one, which had begun before the
    clock went back. -/
theorem day_of_midnight_le (hm : z.IsMidnight m) (hle : m ≤ t) :
    z.day m ≤ z.day t ∨ z.day m = z.day t + 1 ∧ z.dst t = false ∧ z.dst m = true := by
  have hwall := z.wall_eq t
  have hlt := z.secondOfDay_lt t
  have hoff := z.offset_le m t
  rw [isMidnight_iff] at hm
  simp only [start] at hm
  simp only [wall] at hwall
  by_cases hday : z.day m ≤ z.day t
  · exact Or.inl hday
  · exact Or.inr ⟨by omega, offset_lt_iff.1 (by omega)⟩

/-- **The last midnight of a weekday.**  A midnight of the week before an instant is the last one of its weekday
    unless the clock was set back to it, or was set back over the midnight a week later. -/
theorem isLastMidnight_iff {r : Int} (hr : z.IsMidnight r) (hle : r ≤ t) (h₆ : z.day t ≤ z.day r + 6) :
    z.IsLastMidnight (z.weekday r) t r ↔
      ¬(z.dst r = true ∧ z.dst (r + 3600) = false ∧ r + 3600 ≤ t) ∧
      ¬(z.day t = z.day r + 6 ∧ z.dst t = false ∧ z.dst (start (z.day r + 7) (z.standard + 3600)) = true ∧
        start (z.day r + 7) (z.standard + 3600) ≤ t) := by
  constructor
  · intro h
    constructor
    · rintro ⟨hrt, hmf, hmt⟩
      obtain ⟨hmid, hday⟩ := isMidnight_repeated hr hrt hmf
      have hlast := h.last _ hmid (by simp only [weekday, hday]) hmt
      omega
    · rintro ⟨-, -, hnt, hn⟩
      have hoff := offset_of_dst hnt
      have hlast := h.last _ (isMidnight_start hoff) (by simp only [weekday, day_start hoff]; omega) hn
      have hoff_le := z.offset_le (start (z.day r + 7) (z.standard + 3600)) r
      rw [hoff] at hoff_le
      have hr' := isMidnight_iff.1 hr
      simp only [start] at hr' hlast
      omega
  · rintro ⟨hsecond, hnext⟩
    refine ⟨hr, rfl, hle, ?_⟩
    intro m hm hweekday hmt
    apply Int.not_lt.1
    intro hlt
    have hday := day_le_of_midnight_lt hr hm hlt
    simp only [weekday] at hweekday
    by_cases hsame : z.day m = z.day r
    · obtain ⟨hrt, hmf, rfl⟩ := second_midnight hr hm hsame hlt
      exact hsecond ⟨hrt, hmf, hmt⟩
    · obtain hmday | ⟨hmday, htf, hmtrue⟩ := day_of_midnight_le hm hmt
      · omega
      · have hn : m = start (z.day r + 7) (z.standard + 3600) := by
          rw [← offset_of_dst hmtrue, show z.day r + 7 = z.day m by omega]
          exact isMidnight_iff.1 hm
        rw [hn] at hmtrue hmt
        exact hnext ⟨by omega, htf, hmtrue, hmt⟩

/-! ## Fixed offsets -/

theorem day_lt_day_fixed_iff {standard : Int} :
    (fixed standard).day t < (fixed standard).day u ↔ t < (fixed standard).dayStart u := by
  have hadd := (fixed standard).dayStart_add t
  have hlt := (fixed standard).secondOfDay_lt t
  have hnonneg := (fixed standard).secondOfDay_nonneg t
  simp only [dayStart, start, offset_fixed] at hadd ⊢
  omega

theorem day_lt_day_fixed_iff_le {standard : Int} :
    (fixed standard).day t < (fixed standard).day u ↔ (fixed standard).dayStart t + 86400 ≤ u := by
  have hadd := (fixed standard).dayStart_add u
  have hlt := (fixed standard).secondOfDay_lt u
  have hnonneg := (fixed standard).secondOfDay_nonneg u
  simp only [dayStart, start, offset_fixed] at hadd ⊢
  omega

end Zone

end Libws
