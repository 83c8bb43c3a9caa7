import Libws.Lib.Decimal
import Libws.Lib.Outcome
import Libws.Database.Binding

/-!
# `ws::database::Recordset`: rows of texts

Model of `nextRow`, `skipFields` and `operator>>(T&)` of `Recordset` of `include/ws/database/Database.h` and
`wsDatabase/src/Database.cpp`.  A row is what `mysql_fetch_row` returns: a text for each field, none for NULL.

* `atoi`, `atoll` and `strtoull` are defined where the number fits their type.
* `int64_t` and `uint64_t` are the types that are compared with; the overload for enumerations is that of
  their underlying type.

`operatorShr_text_iff` — every integer is read back but those of `uint32_t` that are no `int`.
-/

set_option autoImplicit false

namespace Libws.Recordsets

open Libws.Integer Libws.Binding

/-- `strtof` and `strtod`, with the representation of what they return. -/
structure CLibrary where
  strtof : List Char → List UInt8
  strtod : List Char → List UInt8

/-- A parser of numbers that fit the type it returns. -/
def parseInto (T : IntType) (szRow : List Char) : Option Int :=
  if T.Represents (Decimal.parse szRow) then some (Decimal.parse szRow) else none

def atoi (szRow : List Char) : Option Int := parseInto (.int true .w32) szRow

def atoll (szRow : List Char) : Option Int := parseInto (.int true .w64) szRow

/-- `strtoull(szRow, nullptr, 10)`. -/
def strtoull (szRow : List Char) : Option Int := parseInto (.int false .w64) szRow

abbrev MYSQL_ROW := List (Option (List Char))

structure Recordset where
  fieldIndex : Nat
  numFields : Nat
  mysqlRow : Option MYSQL_ROW
  /-- The rows that were not fetched. -/
  mysqlRes : List MYSQL_ROW

namespace Recordset

/-- The constructor. -/
def new (numFields : Nat) (mysqlRes : List MYSQL_ROW) : Recordset := ⟨0, numFields, none, mysqlRes⟩

def nextRow (r : Recordset) : Recordset × Bool :=
  ({ r with fieldIndex := 0, mysqlRow := r.mysqlRes.head?, mysqlRes := r.mysqlRes.tail }, r.mysqlRes.head?.isSome)

def skipFields (r : Recordset) (num : Int) : Recordset :=
  { r with fieldIndex := ((r.fieldIndex + num) % 2 ^ 32).toNat }

/-- The value that is stored for a text. -/
def parseAs (lib : CLibrary) (szRow : List Char) : Arithmetic → Option Number
  | .integer T =>
    if T = .int true .w64 then (atoll szRow).map .integer
    else if T = .int false .w64 then (strtoull szRow).map .integer
    else (atoi szRow).map fun n => .integer (T.cast n)
  | .float => some (.real (lib.strtof szRow))
  | .double => some (.real (lib.strtod szRow))

/-- `operator>>(T&)` for arithmetic types; none is a read or a conversion without a defined outcome. -/
def operatorShr (lib : CLibrary) (r : Recordset) (T : Arithmetic) (value : Number) : Option (Recordset × Number) :=
  match r.mysqlRow with
  | some row =>
    if r.fieldIndex < r.numFields then
      match row[r.fieldIndex]? with
      | some (some szRow) =>
        (parseAs lib szRow T).map fun value => ({ r with fieldIndex := r.fieldIndex + 1 }, value)
      | some none => some ({ r with fieldIndex := r.fieldIndex + 1 }, value)
      | none => none
    else some (r, value)
  | none => some (r, value)

end Recordset

theorem parseInto_text (T : IntType) (v : Int) :
    parseInto T (Decimal.text v) = if T.Represents v then some v else none := by
  rw [parseInto, Decimal.parse_text]

/-- The values of the types that `atoi` is used for; those of `uint32_t` are not all values of `int`. -/
theorem represents_int_iff {T : IntType} {v : Int} (hv : T.Represents v) (hint64 : T ≠ .int true .w64)
    (huint64 : T ≠ .int false .w64) :
    (IntType.int true .w32).Represents v ↔ ¬ (T = .int false .w32 ∧ 2 ^ 31 ≤ v) := by
  cases T with
  | bool =>
    have hnot : ¬ (IntType.bool = .int false .w32 ∧ 2 ^ 31 ≤ v) := fun h => by cases h.1
    simp only [hnot, not_false_eq_true, iff_true]
    rcases hv with rfl | rfl <;> decide
  | int signed w =>
    cases signed <;> cases w <;>
      simp_all only [IntType.Represents, Width.modulus, Width.bytes, ne_eq, not_true_eq_false, IntType.int.injEq,
        reduceCtorEq, false_and, and_false, and_self, true_and, not_false_eq_true, iff_true]
    all_goals omega

/-- The parser of the type. -/
theorem parseAs_text_iff (lib : CLibrary) {T : IntType} (v : T.Value) :
    Recordset.parseAs lib (Decimal.text v) (.integer T) = some (.integer v) ↔
      ¬ (T = .int false .w32 ∧ 2 ^ 31 ≤ v.val) := by
  obtain ⟨v, hv⟩ := v
  have hcast := cast_eq_self hv
  by_cases hint64 : T = .int true .w64
  · subst hint64
    simp [Recordset.parseAs, atoll, parseInto_text, hv]
  by_cases huint64 : T = .int false .w64
  · subst huint64
    simp [Recordset.parseAs, strtoull, parseInto_text, hv]
  rw [← represents_int_iff hv hint64 huint64]
  simp only [Recordset.parseAs, if_neg hint64, if_neg huint64, atoi, parseInto_text]
  split
  · simpa [hcast]
  · simpa

/-- **Integers in rows.**  A field that holds the text of a value is read back, whatever the type and the value,
if and only if the value is not one of `uint32_t` from `2 ^ 31` on. -/
theorem operatorShr_text_iff (lib : CLibrary) {T : IntType} (v : T.Value) {r : Recordset} {row : MYSQL_ROW}
    (hrow : r.mysqlRow = some row) (hindex : r.fieldIndex < r.numFields)
    (hfield : row[r.fieldIndex]? = some (some (Decimal.text v))) (value : Number) :
    (∃ r', r.operatorShr lib (.integer T) value = some (r', .integer v)) ↔
      ¬ (T = .int false .w32 ∧ 2 ^ 31 ≤ v.val) := by
  rw [← parseAs_text_iff lib v]
  unfold Recordset.operatorShr
  rw [hrow]
  simp only [if_pos hindex, hfield]
  exact exists_map_prod_iff _

/-- A library without floating-point numbers. -/
def integersOnly : CLibrary := ⟨fun _ => [], fun _ => []⟩

/-- A negative `int64_t`. -/
theorem operatorShr_text_int64 :
    ∃ r', (Recordset.new 1 [[some (Decimal.text (-5000000000))]]).nextRow.1.operatorShr integersOnly
      (.integer (.int true .w64)) (.integer 0) = some (r', .integer (-5000000000)) :=
  (operatorShr_text_iff integersOnly ⟨-5000000000, by decide⟩ rfl (by decide) rfl (.integer 0)).mpr (by decide)

/-- 3000000000 is a value of `uint32_t`, and none of `int`. -/
theorem uint32_not_read_back :
    ¬ ∀ (lib : CLibrary) (T : IntType) (v : T.Value) (r : Recordset) (row : MYSQL_ROW), r.mysqlRow = some row →
      r.fieldIndex < r.numFields → row[r.fieldIndex]? = some (some (Decimal.text v)) → ∀ value,
        ∃ r', r.operatorShr lib (.integer T) value = some (r', .integer v) := by
  intro hall
  obtain ⟨r', hread⟩ := hall integersOnly (.int false .w32) ⟨3000000000, by decide⟩
    (Recordset.new 1 [[some (Decimal.text 3000000000)]]).nextRow.1 _ rfl (by decide) rfl (.integer 0)
  have hparse : Recordset.parseAs integersOnly (Decimal.text 3000000000) (.integer (.int false .w32)) = none := by
    simp only [Recordset.parseAs, atoi, parseInto_text]
    decide
  simp [Recordset.operatorShr, Recordset.new, Recordset.nextRow, hparse] at hread

end Libws.Recordsets
