import Mathlib.Algebra.Group.Int.Defs
import Mathlib.Algebra.Group.Nat.Defs
import Libws.Lib.Calendar

/-!
# `ws::database::DBStatement`: the time bindings

Model of the `operator<<` and `operator>>` of times of `include/ws/database/Database.h` and
`wsDatabase/src/Database.cpp`, with what they read and write of a statement.

* A time point counts ticks of its precision since the epoch of the system clock; a duration counts
  periods of `num / den` seconds.
* `static_cast<unsigned>` is `% 2 ^ 32`.  `std::chrono` does not overflow on the times that MySQL has.
* A buffer is the `MYSQL_TIME` that stands in it; the bindings of other types are left out.

`time_round_trip` and `datetime_round_trip` tell which values come back from a server that returns the
structure it was given.
-/

set_option autoImplicit false

namespace Libws.Database

open Libws.Calendar

/-- `enum_field_types`. -/
inductive FieldType where
  | DECIMAL | TINY | SHORT | LONG | LONGLONG | FLOAT | DOUBLE | STRING | BLOB | NULL
  | DATE | TIME | DATETIME | TIMESTAMP
  deriving DecidableEq, Repr

/-- `enum_mysql_timestamp_type`. -/
inductive TimestampType where
  | DATE | DATETIME | TIME
  deriving DecidableEq, Repr

structure MYSQL_TIME where
  year : Nat
  month : Nat
  day : Nat
  hour : Nat
  minute : Nat
  second : Nat
  second_part : Nat
  neg : Bool
  time_type : TimestampType
  deriving DecidableEq, Repr

/-- A buffer of zeros. -/
def MYSQL_TIME.zero : MYSQL_TIME := ⟨0, 0, 0, 0, 0, 0, 0, false, .DATE⟩

structure ParamBind where
  buffer_type : FieldType
  buffer : Option MYSQL_TIME
  deriving DecidableEq, Repr

/-- A binding of zeros. -/
def ParamBind.zero : ParamBind := ⟨.DECIMAL, none⟩

structure ResultBind where
  buffer_type : FieldType
  is_null : Bool
  buffer : MYSQL_TIME
  deriving DecidableEq, Repr

structure DBStatement where
  paramIndex : Nat
  resultIndex : Nat
  lastUseTime : Int
  sql : String
  paramBind : List ParamBind
  resultBind : List ResultBind
  deriving DecidableEq, Repr

/-- `std::chrono::duration<Rep, std::ratio<num, den>>`. -/
structure Duration where
  count : Int
  num : Nat
  den : Nat
  den_pos : 0 < den
  deriving DecidableEq, Repr

/-- The duration is that many microseconds. -/
def Duration.Is (d : Duration) (usec : Int) : Prop := d.count * d.num * 1000000 = usec * d.den

instance (d : Duration) (usec : Int) : Decidable (d.Is usec) :=
  inferInstanceAs (Decidable (d.count * d.num * 1000000 = usec * d.den))

/-- `duration_cast<microseconds>(d).count()`, which rounds towards zero. -/
def Duration.castMicroseconds (d : Duration) : Int := (d.count * d.num * 1000000).tdiv d.den

/-- The durations of the time points that are bound. -/
inductive Precision where
  | seconds | milliseconds | microseconds
  deriving DecidableEq, Repr

def Precision.perSecond : Precision → Nat
  | .seconds => 1
  | .milliseconds => 1000
  | .microseconds => 1000000

/-- `std::chrono::time_point<system_clock, D>`. -/
structure TimePoint where
  precision : Precision
  count : Int
  deriving DecidableEq, Repr

namespace DBStatement

/-- The constructor, for a statement with that many parameters and these fields. -/
def new (numParams : Nat) (fields : List FieldType) (sql : String) : DBStatement :=
  { paramIndex := 0, resultIndex := 0, lastUseTime := 0, sql := sql
    paramBind := List.replicate numParams .zero
    resultBind := fields.map fun type => ⟨type, false, .zero⟩ }

def numParams (s : DBStatement) : Nat := s.paramBind.length

def clear (s : DBStatement) : DBStatement :=
  { s with
    paramBind := List.replicate s.numParams .zero
    resultBind := s.resultBind.map ({ · with buffer := .zero })
    paramIndex := 0
    resultIndex := 0 }

/-- Bind the next parameter to a time, if there is one. -/
def bindTime (s : DBStatement) (type : FieldType) (mytime : MYSQL_TIME) : DBStatement :=
  if s.paramIndex < s.numParams then
    { s with paramBind := s.paramBind.set s.paramIndex ⟨type, some mytime⟩, paramIndex := s.paramIndex + 1 }
  else s

/-! ## DATETIME -/

/-- `floor<days>(value)`. -/
def date (value : TimePoint) : Int := value.count / (86400 * value.precision.perSecond)

/-- `hh_mm_ss{ value - date }`, as the ticks since midnight. -/
def sinceMidnight (value : TimePoint) : Nat := (value.count % (86400 * value.precision.perSecond)).toNat

/-- What `operator<<` of a time point stores. -/
def datetimeOf (value : TimePoint) : MYSQL_TIME :=
  let ymd := civilFromDays (date value)
  let ticks := sinceMidnight value
  let perSecond := value.precision.perSecond
  { time_type := .DATETIME
    year := (ymd.year % 2 ^ 32).toNat
    month := (ymd.month % 2 ^ 32).toNat
    day := (ymd.day % 2 ^ 32).toNat
    hour := ticks / (3600 * perSecond) % 2 ^ 32
    minute := ticks / (60 * perSecond) % 60 % 2 ^ 32
    second := ticks / perSecond % 60 % 2 ^ 32
    -- subseconds() counts ticks of the precision
    second_part := ticks % perSecond % 2 ^ 32
    neg := false }

/-- `operator<<(const time_point<C, D>&)`. -/
def operatorShlTimePoint (s : DBStatement) (value : TimePoint) : DBStatement :=
  s.bindTime .DATETIME (datetimeOf value)

/-- The time of the day that is in the structure, in microseconds. -/
def timeOfDay (mytime : MYSQL_TIME) : Int :=
  mytime.hour * 3600000000 + mytime.minute * 60000000 + mytime.second * 1000000 + mytime.second_part

/-- `floor<D>(time_point<C, days>{ ymd } + …)`. -/
def timePointOf (precision : Precision) (mytime : MYSQL_TIME) : TimePoint :=
  let day := daysFromCivil ⟨mytime.year, mytime.month, mytime.day⟩
  ⟨precision, (day * 86400000000 + timeOfDay mytime) / (1000000 / precision.perSecond)⟩

/-- `operator>>(time_point<C, D>&)`. -/
def operatorShrTimePoint (s : DBStatement) (value : TimePoint) : DBStatement × TimePoint :=
  match s.resultBind[s.resultIndex]? with
  | none => (s, value)
  | some b =>
    ({ s with resultIndex := s.resultIndex + 1 },
      if ¬ b.is_null ∧ (b.buffer_type = .DATE ∨ b.buffer_type = .DATETIME ∨ b.buffer_type = .TIMESTAMP) then
        timePointOf value.precision b.buffer
      else value)

/-! ## TIME -/

/-- What `operator<<` of a duration stores. -/
def timeOf (value : Duration) : MYSQL_TIME :=
  let usec := value.castMicroseconds
  let abs := usec.natAbs
  { MYSQL_TIME.zero with
    neg := usec < 0
    time_type := .TIME
    hour := abs / 3600000000 % 2 ^ 32
    minute := abs % 3600000000 / 60000000 % 2 ^ 32
    second := abs % 3600000000 % 60000000 / 1000000 % 2 ^ 32
    second_part := abs % 3600000000 % 60000000 % 1000000 % 2 ^ 32 }

/-- `operator<<(Duration&&)`. -/
def operatorShlDuration (s : DBStatement) (value : Duration) : DBStatement := s.bindTime .TIME (timeOf value)

/-- `operator>>(microseconds&)`. -/
def operatorShrMicroseconds (s : DBStatement) (value : Int) : DBStatement × Int :=
  match s.resultBind[s.resultIndex]? with
  | none => (s, value)
  | some b =>
    ({ s with resultIndex := s.resultIndex + 1 },
      if b.is_null then 0 else if b.buffer_type = .TIME then timeOfDay b.buffer else value)

/-! ## Round trips -/

/-- The time that a parameter is bound to. -/
def bound (s : DBStatement) (i : Nat) : Option MYSQL_TIME := s.paramBind[i]?.bind (·.buffer)

/-- The next result is a time of that type, not NULL, and what the server was given for a parameter. -/
def Returns (reader : DBStatement) (type : FieldType) (given : Option MYSQL_TIME) : Prop :=
  ∃ mytime, given = some mytime ∧ reader.resultBind[reader.resultIndex]? = some ⟨type, false, mytime⟩

theorem bound_bindTime {s : DBStatement} (h : s.paramIndex < s.numParams) (type : FieldType) (mytime : MYSQL_TIME) :
    (s.bindTime type mytime).bound s.paramIndex = some mytime := by
  simp only [bound, bindTime, if_pos h]
  rw [List.getElem?_set_self h, Option.bind_some]

/-! ### What comes back -/

theorem castMicroseconds_of_is {d : Duration} {usec : Int} (h : d.Is usec) : d.castMicroseconds = usec := by
  have hden : (d.den : Int) ≠ 0 := by exact_mod_cast Nat.pos_iff_ne_zero.mp d.den_pos
  rw [Duration.castMicroseconds, show d.count * d.num * 1000000 = usec * d.den from h, Int.mul_tdiv_cancel _ hden]

/-- The decoder leaves the sign out. -/
theorem timeOfDay_timeOf {d : Duration} {usec : Int} (h : d.Is usec) (hmax : usec.natAbs ≤ 3020399999999) :
    timeOfDay (timeOf d) = usec.natAbs := by
  simp only [timeOfDay, timeOf, castMicroseconds_of_is h]
  omega

/-- **TIME.**  A duration in the range of MySQL comes back if and only if it is not negative. -/
theorem time_round_trip (s reader : DBStatement) (d : Duration) (usec old : Int)
    (hparam : s.paramIndex < s.numParams) (hd : d.Is usec)
    (hmin : -3020399999999 ≤ usec) (hmax : usec ≤ 3020399999999)
    (hreturns : reader.Returns .TIME ((s.operatorShlDuration d).bound s.paramIndex)) :
    (reader.operatorShrMicroseconds old).2 = usec ↔ 0 ≤ usec := by
  obtain ⟨mytime, hgiven, hresult⟩ := hreturns
  rw [operatorShlDuration, bound_bindTime hparam] at hgiven
  cases hgiven
  simp only [operatorShrMicroseconds, hresult, Bool.false_eq_true, if_false, if_true,
    timeOfDay_timeOf hd (by omega)]
  omega

/-- Twelve and a half hours, given in minutes. -/
theorem time_round_trip_minutes :
    ((⟨0, 0, 0, "", [], [⟨.TIME, false, timeOf ⟨750, 60, 1, by decide⟩⟩]⟩ : DBStatement).operatorShrMicroseconds 0).2 =
      45000000000 :=
  (time_round_trip (new 1 [] "INSERT INTO a VALUES (?)")
    ⟨0, 0, 0, "", [], [⟨.TIME, false, timeOf ⟨750, 60, 1, by decide⟩⟩]⟩ ⟨750, 60, 1, by decide⟩ 45000000000 0
    (by decide) (by decide) (by decide) (by decide) ⟨_, rfl, rfl⟩).mpr (by decide)

/-- Minus one hour comes back as one hour. -/
theorem negative_time_lost :
    ¬ ∀ (s reader : DBStatement) (d : Duration) (usec old : Int), s.paramIndex < s.numParams → d.Is usec →
      -3020399999999 ≤ usec → usec ≤ 3020399999999 →
      reader.Returns .TIME ((s.operatorShlDuration d).bound s.paramIndex) →
      (reader.operatorShrMicroseconds old).2 = usec := by
  intro hall
  have hback := hall (new 1 [] "INSERT INTO a VALUES (?)")
    ⟨0, 0, 0, "", [], [⟨.TIME, false, timeOf ⟨-1, 3600, 1, by decide⟩⟩]⟩ ⟨-1, 3600, 1, by decide⟩ (-3600000000) 0
    (by decide) (by decide) (by decide) (by decide) ⟨_, rfl, rfl⟩
  exact absurd hback (by decide)

theorem perSecond_pos (precision : Precision) : 0 < precision.perSecond := by cases precision <;> decide

/-- The date that is stored, read back, is the day of the time point. -/
theorem date_datetimeOf {value : TimePoint} (hmin : 1000 ≤ (civilFromDays (date value)).year)
    (hmax : (civilFromDays (date value)).year ≤ 9999) :
    daysFromCivil ⟨(datetimeOf value).year, (datetimeOf value).month, (datetimeOf value).day⟩ = date value := by
  obtain ⟨hmonth₀, hmonth₁, hday₀, hday₁⟩ := civilFromDays_bounds (date value)
  have hcivil : (⟨(datetimeOf value).year, (datetimeOf value).month, (datetimeOf value).day⟩ : Civil) =
      civilFromDays (date value) := by
    simp only [datetimeOf]
    generalize civilFromDays (date value) = ymd at *
    obtain ⟨year, month, day⟩ := ymd
    simp only [Civil.mk.injEq] at *
    omega
  rw [hcivil, daysFromCivil_civilFromDays]

theorem sinceMidnight_cast (value : TimePoint) :
    (sinceMidnight value : Int) = value.count % (86400 * value.precision.perSecond) ∧
      sinceMidnight value < 86400 * value.precision.perSecond := by
  have hpos := perSecond_pos value.precision
  have hge := Int.emod_nonneg value.count (show (86400 * value.precision.perSecond : Int) ≠ 0 by omega)
  have hlt := Int.emod_lt_of_pos value.count (show (0 : Int) < 86400 * value.precision.perSecond by omega)
  unfold sinceMidnight
  omega

/-- The whole seconds of the day come back in microseconds, and the rest as the number of its ticks. -/
theorem timeOfDay_datetimeOf (value : TimePoint) :
    timeOfDay (datetimeOf value) =
      (sinceMidnight value / value.precision.perSecond * 1000000 +
        sinceMidnight value % value.precision.perSecond : Nat) := by
  have hlt := (sinceMidnight_cast value).2
  simp only [timeOfDay, datetimeOf]
  generalize sinceMidnight value = ticks at hlt ⊢
  cases hprecision : value.precision <;> rw [hprecision] at hlt <;> simp only [Precision.perSecond] at hlt ⊢ <;> omega

/-- The ticks in front of midnight and since. -/
theorem count_eq (value : TimePoint) :
    value.count = date value * (86400 * value.precision.perSecond) + sinceMidnight value := by
  rw [(sinceMidnight_cast value).1, date, Int.mul_comm]
  exact (Int.mul_ediv_add_emod ..).symm

/-- The milliseconds of a second are stored as microseconds. -/
theorem timePointOf_datetimeOf {value : TimePoint} (hmin : 1000 ≤ (civilFromDays (date value)).year)
    (hmax : (civilFromDays (date value)).year ≤ 9999) :
    timePointOf value.precision (datetimeOf value) = value ↔
      (value.precision = .milliseconds → value.count % 1000 = 0) := by
  have hcount := count_eq value
  simp only [timePointOf, date_datetimeOf hmin hmax, timeOfDay_datetimeOf]
  generalize date value = day at hcount
  generalize sinceMidnight value = ticks at hcount ⊢
  obtain ⟨precision, count⟩ := value
  cases precision <;> simp only [Precision.perSecond, TimePoint.mk.injEq, true_and] at hcount ⊢
  · simp only [reduceCtorEq, false_implies, iff_true]
    omega
  · simp only [forall_const]
    omega
  · simp only [reduceCtorEq, false_implies, iff_true]
    omega

theorem second_part_lt (value : TimePoint) : (datetimeOf value).second_part < 1000000 := by
  have hlt := Nat.mod_lt (sinceMidnight value) (perSecond_pos value.precision)
  have hle : value.precision.perSecond ≤ 1000000 := by cases value.precision <;> decide
  simp only [datetimeOf]
  omega

/-- **DATETIME.**  The stored second part is below a million, and a time point in the years 1000 to 9999
comes back if and only if it is not in milliseconds, or is in whole seconds. -/
theorem datetime_round_trip (s reader : DBStatement) (value old : TimePoint) (type : FieldType)
    (hparam : s.paramIndex < s.numParams) (htype : type = .DATETIME ∨ type = .TIMESTAMP)
    (hmin : 1000 ≤ (civilFromDays (date value)).year) (hmax : (civilFromDays (date value)).year ≤ 9999)
    (hold : old.precision = value.precision)
    (hreturns : reader.Returns type ((s.operatorShlTimePoint value).bound s.paramIndex)) :
    (∀ mytime, (s.operatorShlTimePoint value).bound s.paramIndex = some mytime → mytime.second_part < 1000000) ∧
      ((reader.operatorShrTimePoint old).2 = value ↔
        (value.precision = .milliseconds → value.count % 1000 = 0)) := by
  rw [operatorShlTimePoint, bound_bindTime hparam] at hreturns ⊢
  obtain ⟨mytime, hgiven, hresult⟩ := hreturns
  cases hgiven
  constructor
  · intro mytime hmytime
    cases hmytime
    exact second_part_lt value
  · have htime : type = .DATE ∨ type = .DATETIME ∨ type = .TIMESTAMP := Or.inr htype
    simp only [operatorShrTimePoint, hresult, htime, Bool.false_eq_true, not_false_eq_true, and_self, if_true, hold]
    exact timePointOf_datetimeOf hmin hmax

/-- Half a second before 1970, in microseconds. -/
theorem datetime_round_trip_microseconds :
    ((⟨0, 0, 0, "", [], [⟨.DATETIME, false, datetimeOf ⟨.microseconds, -500000⟩⟩]⟩ : DBStatement).operatorShrTimePoint
      ⟨.microseconds, 0⟩).2 = ⟨.microseconds, -500000⟩ :=
  (datetime_round_trip (new 1 [] "INSERT INTO a VALUES (?)")
    ⟨0, 0, 0, "", [], [⟨.DATETIME, false, datetimeOf ⟨.microseconds, -500000⟩⟩]⟩ ⟨.microseconds, -500000⟩
    ⟨.microseconds, 0⟩ .DATETIME (by decide) (by decide) (by decide) (by decide) rfl ⟨_, rfl,
      rfl⟩).2.mpr (by decide)

/-- The second and a half after 1970-01-01, in milliseconds, comes back as one second. -/
theorem milliseconds_lost :
    ¬ ∀ (s reader : DBStatement) (value old : TimePoint) (type : FieldType), s.paramIndex < s.numParams →
      type = .DATETIME ∨ type = .TIMESTAMP → 1000 ≤ (civilFromDays (date value)).year →
      (civilFromDays (date value)).year ≤ 9999 → old.precision = value.precision →
      reader.Returns type ((s.operatorShlTimePoint value).bound s.paramIndex) →
      (∀ mytime, (s.operatorShlTimePoint value).bound s.paramIndex = some mytime → mytime.second_part < 1000000) ∧
        (reader.operatorShrTimePoint old).2 = value := by
  intro hall
  obtain ⟨-, hback⟩ := hall (new 1 [] "INSERT INTO a VALUES (?)")
    ⟨0, 0, 0, "", [], [⟨.DATETIME, false, datetimeOf ⟨.milliseconds, 1500⟩⟩]⟩ ⟨.milliseconds, 1500⟩
    ⟨.milliseconds, 0⟩ .DATETIME (by decide) (by decide) (by decide) (by decide) rfl ⟨_, rfl, rfl⟩
  exact absurd hback (by decide)

end DBStatement

end Libws.Database
