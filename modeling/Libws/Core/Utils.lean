import Libws.Lib.Integer

/-!
# `ws::core::validateEnum`

Model of both overloads of `validateEnum` of `include/ws/core/Utils.h`.  An enumeration is its underlying
type with the bounds that the templates ask for.

`validateEnumInt_iff` — the overload for integers is wrong exactly where the argument wraps to a value in range.
-/

set_option autoImplicit false

namespace Libws.Core.Utils

open Libws.Integer

/-- An enumeration that provides `MIN` and `MAX`. -/
structure EnumType where
  underlying : IntType
  MIN : underlying.Value
  MAX : underlying.Value
  min_le_max : MIN.val ≤ MAX.val

namespace EnumType

variable (E : EnumType)

/-- `validateEnum(Enum)`, on the value of the enumerator. -/
def validateEnum (rhs : E.underlying.Value) : Bool :=
  E.underlying.cast rhs ≥ E.underlying.cast E.MIN && E.underlying.cast rhs < E.underlying.cast E.MAX

/-- `validateEnum(IntType)`. -/
def validateEnumInt {T : IntType} (rhs : T.Value) : Bool :=
  E.underlying.cast rhs ≥ E.underlying.cast E.MIN && E.underlying.cast rhs < E.underlying.cast E.MAX

/-- The valid range, without its end. -/
def InRange (v : Int) : Prop := E.MIN.val ≤ v ∧ v < E.MAX.val

/-- The enumerators are told apart. -/
theorem validateEnum_eq (rhs : E.underlying.Value) : E.validateEnum rhs = true ↔ E.InRange rhs := by
  simp only [validateEnum, InRange, cast_eq_self rhs.property, cast_eq_self E.MIN.property,
    cast_eq_self E.MAX.property, Bool.and_eq_true, decide_eq_true_eq, ge_iff_le]

/-- The argument is judged by its cast. -/
theorem validateEnumInt_eq {T : IntType} (rhs : T.Value) :
    E.validateEnumInt rhs = true ↔ E.InRange (E.underlying.cast rhs) := by
  simp only [validateEnumInt, InRange, cast_eq_self E.MIN.property, cast_eq_self E.MAX.property, Bool.and_eq_true,
    decide_eq_true_eq, ge_iff_le]

theorem represents_of_inRange {v : Int} (h : E.InRange v) : E.underlying.Represents v :=
  represents_between E.MIN.property E.MAX.property h.1 (Int.le_of_lt h.2)

/-- A range of `bool` holds false only. -/
theorem inRange_bool (hbool : E.underlying = .bool) {v : Int} (h : E.InRange v) : v = 0 := by
  obtain ⟨T, ⟨lo, hlo⟩, ⟨hi, hhi⟩, _⟩ := E
  cases (hbool : T = .bool)
  obtain ⟨hle, hlt⟩ := h
  simp only [IntType.Represents] at hlo hhi hle hlt
  omega

/-- A number out of the range whose cast is in it. -/
theorem aliases_of_cast_inRange {n : Int} (hout : ¬ E.InRange n) (hcast : E.InRange (E.underlying.cast n)) :
    E.underlying.Aliases n (E.underlying.cast n) := by
  have hne : n ≠ E.underlying.cast n := fun heq => hout (heq ▸ hcast)
  refine aliases_cast (fun hbool => hne ?_) hne
  have hzero := E.inRange_bool hbool hcast
  rw [hbool] at hzero ⊢
  simp only [IntType.cast] at hzero ⊢
  split at hzero
  · rename_i h
    rw [h, if_pos rfl]
  · cases hzero

/-- **Which integers are judged rightly.**  Exactly those that the underlying type does not take for another
value, one in the range. -/
theorem validateEnumInt_iff {T : IntType} (n : T.Value) :
    (E.validateEnumInt n = true ↔ E.MIN.val ≤ n.val ∧ n.val < E.MAX.val) ↔
      ∀ v, E.InRange v → ¬ E.underlying.Aliases n v := by
  rw [validateEnumInt_eq]
  by_cases hin : E.InRange n.val
  · have hn := E.represents_of_inRange hin
    rw [cast_eq_self hn]
    exact ⟨fun _ v hv => not_aliases hn (E.represents_of_inRange hv), fun _ => Iff.rfl⟩
  · constructor
    · intro h v hv halias
      have hcast := cast_of_aliases halias (E.represents_of_inRange hv)
      exact hin (h.mp (hcast ▸ hv))
    · intro h
      have hcast : ¬ E.InRange (E.underlying.cast n) := fun hcast => h _ hcast (E.aliases_of_cast_inRange hin hcast)
      exact ⟨fun hc => absurd hc hcast, fun hr => absurd hr hin⟩

/-- 256 is no value of an enumeration from 0 to 2 in one byte, and passes for 0. -/
theorem validateEnumInt_wraps :
    ¬ ∀ (E : EnumType) (T : IntType) (n : T.Value),
      E.validateEnumInt n = true ↔ E.MIN.val ≤ n.val ∧ n.val < E.MAX.val := by
  intro hall
  have h := hall ⟨.int false .w8, ⟨0, by decide⟩, ⟨2, by decide⟩, by decide⟩ (.int true .w32) ⟨256, by decide⟩
  exact absurd (h.mp (by decide)) (by decide)

end EnumType

end Libws.Core.Utils
