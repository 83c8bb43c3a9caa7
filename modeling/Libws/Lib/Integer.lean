import Libws.Lib.Word

/-!
# The integral types of C++

A type is `bool`, or a signed or unsigned integer of one, two, four or eight bytes; its values are
integers.  `cast` is `static_cast` to the type, and `ofBytes` the value of an object that has a given
representation, little-endian and in two's complement.

* `cast_eq_self`, `cast_represents` — a cast keeps the values of the type, and gives no others.
* `dvd_cast_sub` — what a cast changes is a multiple of the modulus.
* `ofBytes_take_toBytes` — the low bytes of a wider representation hold every value of the type.
-/

set_option autoImplicit false

namespace Libws.Integer

open Libws.Word

inductive Width where
  | w8 | w16 | w32 | w64
  deriving DecidableEq, Repr

def Width.bytes : Width → Nat
  | .w8 => 1
  | .w16 => 2
  | .w32 => 4
  | .w64 => 8

def Width.modulus (w : Width) : Nat := 256 ^ w.bytes

inductive IntType where
  | bool
  | int (signed : Bool) (w : Width)
  deriving DecidableEq, Repr

namespace IntType

/-- `sizeof(T)`. -/
def size : IntType → Nat
  | .bool => 1
  | .int _ w => w.bytes

/-- The type has that value. -/
def Represents : IntType → Int → Prop
  | .bool, v => v = 0 ∨ v = 1
  | .int true w, v => -(w.modulus / 2 : Nat) ≤ v ∧ v < (w.modulus / 2 : Nat)
  | .int false w, v => 0 ≤ v ∧ v < (w.modulus : Nat)

instance : ∀ (T : IntType) (v : Int), Decidable (T.Represents v)
  | .bool, v => inferInstanceAs (Decidable (v = 0 ∨ v = 1))
  | .int true w, v => inferInstanceAs (Decidable (-(w.modulus / 2 : Nat) ≤ v ∧ v < (w.modulus / 2 : Nat)))
  | .int false w, v => inferInstanceAs (Decidable (0 ≤ v ∧ v < (w.modulus : Nat)))

/-- The values of the type. -/
abbrev Value (T : IntType) := { v : Int // T.Represents v }

/-- `static_cast<T>`. -/
def cast : IntType → Int → Int
  | .bool, v => if v = 0 then 0 else 1
  | .int true w, v => v.bmod w.modulus
  | .int false w, v => v % w.modulus

/-- Another number that is the same in the type.  `bool` is no arithmetic modulo two. -/
def Aliases : IntType → Int → Int → Prop
  | .bool, _, _ => False
  | .int _ w, n, v => n ≠ v ∧ (w.modulus : Int) ∣ n - v

/-- The value of an object; a `bool` has no value but its two. -/
def ofBytes (T : IntType) (bytes : List UInt8) : Option Int :=
  match T with
  | .bool => if leNat bytes ≤ 1 then some (leNat bytes) else none
  | .int _ _ => some (T.cast (leNat bytes))

end IntType

/-- The representation of a number in so many bytes. -/
def toBytes (size : Nat) (v : Int) : List UInt8 := leBytes size (v % (256 ^ size : Nat)).toNat

/-! ## Casts -/

theorem Width.modulus_even (w : Width) : 2 * (w.modulus / 2) = w.modulus := by cases w <;> decide

theorem Width.modulus_pos (w : Width) : 0 < w.modulus := by cases w <;> decide

theorem cast_eq_self {T : IntType} {v : Int} (h : T.Represents v) : T.cast v = v := by
  cases T with
  | bool => rcases h with rfl | rfl <;> rfl
  | int signed w =>
    have heven := w.modulus_even
    cases signed with
    | true =>
      obtain ⟨hlo, hhi⟩ := h
      exact Int.bmod_eq_of_le (by omega) (by omega)
    | false => exact Int.emod_eq_of_lt h.1 h.2

theorem cast_represents (T : IntType) (v : Int) : T.Represents (T.cast v) := by
  cases T with
  | bool =>
    simp only [IntType.cast, IntType.Represents]
    split <;> decide
  | int signed w =>
    have heven := w.modulus_even
    have hpos := w.modulus_pos
    cases signed with
    | true =>
      have hlo := Int.le_bmod (x := v) hpos
      have hhi := Int.bmod_lt (x := v) hpos
      simp only [IntType.Represents, IntType.cast]
      omega
    | false => exact ⟨Int.emod_nonneg v (by omega), Int.emod_lt_of_pos v (by omega)⟩

/-- What a cast changes is a multiple of the modulus. -/
theorem dvd_cast_sub (signed : Bool) (w : Width) (v : Int) :
    (w.modulus : Int) ∣ (IntType.int signed w).cast v - v := by
  cases signed with
  | true => exact Int.dvd_bmod_sub_self
  | false => exact Int.dvd_emod_sub_self

/-- Two values of one type that are congruent are one value. -/
theorem represents_unique {signed : Bool} {w : Width} {v v' : Int} (h : (IntType.int signed w).Represents v)
    (h' : (IntType.int signed w).Represents v') (hdvd : (w.modulus : Int) ∣ v - v') : v = v' := by
  have heven := w.modulus_even
  have hsmall : (v - v').natAbs < w.modulus := by
    cases signed <;> simp only [IntType.Represents] at h h' <;> omega
  have hzero := Int.eq_zero_of_dvd_of_natAbs_lt_natAbs hdvd (by simpa using hsmall)
  omega

/-- A cast of congruent values. -/
theorem cast_congr {signed : Bool} {w : Width} {v v' : Int} (hdvd : (w.modulus : Int) ∣ v - v') :
    (IntType.int signed w).cast v = (IntType.int signed w).cast v' := by
  refine represents_unique (cast_represents _ v) (cast_represents _ v') ?_
  have h := dvd_cast_sub signed w v
  have h' := dvd_cast_sub signed w v'
  have hsum : (IntType.int signed w).cast v - (IntType.int signed w).cast v' =
      ((IntType.int signed w).cast v - v) + (v - v') - ((IntType.int signed w).cast v' - v') := by omega
  rw [hsum]
  exact Int.dvd_sub (Int.dvd_add h hdvd) h'

theorem represents_between {T : IntType} {lo v hi : Int} (hlo : T.Represents lo)
    (hhi : T.Represents hi) (h : lo ≤ v) (h' : v ≤ hi) : T.Represents v := by
  cases T with
  | bool =>
    simp only [IntType.Represents] at hlo hhi ⊢
    omega
  | int signed w => cases signed <;> simp only [IntType.Represents] at hlo hhi ⊢ <;> omega

theorem cast_of_aliases {T : IntType} {n v : Int} (h : T.Aliases n v) (hv : T.Represents v) : T.cast n = v := by
  cases T with
  | bool => exact absurd h id
  | int signed w => rw [cast_congr h.2, cast_eq_self hv]

theorem not_aliases {T : IntType} {n v : Int} (hn : T.Represents n) (hv : T.Represents v) :
    ¬ T.Aliases n v := fun h => by
  have hcast := cast_of_aliases h hv
  rw [cast_eq_self hn] at hcast
  cases T with
  | bool => exact h
  | int signed w => exact h.1 hcast

/-- A number is the same as its cast. -/
theorem aliases_cast {T : IntType} {n : Int} (hT : T ≠ .bool) (hne : n ≠ T.cast n) : T.Aliases n (T.cast n) := by
  cases T with
  | bool => exact absurd rfl hT
  | int signed w =>
    refine ⟨hne, ?_⟩
    rw [← Int.neg_sub]
    exact Int.dvd_neg.mpr (dvd_cast_sub signed w n)

/-! ## Representations -/

theorem toBytes_length (size : Nat) (v : Int) : (toBytes size v).length = size := leBytes_length _ _

/-- What the low bytes of a representation are read as. -/
theorem leNat_take_toBytes {m size : Nat} (hsize : m ≤ size) (v : Int) :
    (leNat ((toBytes size v).take m) : Int) = v % (256 ^ m : Nat) := by
  have hpos : (0 : Int) < (256 ^ size : Nat) := by exact_mod_cast Nat.pow_pos (by decide)
  have hnonneg := Int.emod_nonneg v (Int.ne_of_gt hpos)
  have hdvd : ((256 ^ m : Nat) : Int) ∣ (256 ^ size : Nat) :=
    Int.natCast_dvd_natCast.mpr (Nat.pow_dvd_pow 256 hsize)
  rw [toBytes, leBytes_take hsize, leNat_leBytes_mod, Int.natCast_emod, Int.toNat_of_nonneg hnonneg]
  exact Int.emod_emod_of_dvd v hdvd

/-- **The low bytes** of a representation hold the values of every narrower type. -/
theorem ofBytes_take_toBytes {T : IntType} {size : Nat} {v : Int} (hsize : T.size ≤ size) (h : T.Represents v) :
    T.ofBytes ((toBytes size v).take T.size) = some v := by
  have hread := leNat_take_toBytes hsize v
  cases T with
  | bool =>
    have hone : leNat ((toBytes size v).take 1) ≤ 1 ∧ (leNat ((toBytes size v).take 1) : Int) = v := by
      rcases h with rfl | rfl <;> simp only [IntType.size] at hread <;> omega
    simp only [IntType.ofBytes, IntType.size, if_pos hone.1, hone.2]
  | int signed w =>
    have hdvd : (w.modulus : Int) ∣ (leNat ((toBytes size v).take w.bytes) : Int) - v := by
      rw [show (leNat ((toBytes size v).take w.bytes) : Int) = v % (w.modulus : Nat) from hread]
      exact Int.dvd_emod_sub_self
    simp only [IntType.ofBytes, IntType.size, cast_congr hdvd, cast_eq_self h]

end Libws.Integer
