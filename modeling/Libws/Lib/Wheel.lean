import Mathlib.Algebra.Group.Int.Defs
import Mathlib.Algebra.Group.Nat.Defs

/-!
# Hierarchical timing wheels: the arithmetic

A level of a timing wheel has `k` slots, and a slot stands for a block of `B` ticks: the tick `d`
belongs to the block `d / B`, which is kept in the slot `d / B % k`.

* `slot_inj` — inside a window of `k` blocks a slot names one block.
* `block_window` — a delay of at least one and less than `k` blocks leads to one of the next `k`
  blocks, also when it is counted from the tick before.
* `block_of_dvd` — the ticks of a block that begins now.
* `mod_div_mod` — a field of a counter that wraps.
-/

set_option autoImplicit false

namespace Libws.Wheel

variable {B k a d E A D n : Nat}

theorem slot_inj (hle : a ≤ d) (hlt : d < a + k) (hmod : d % k = a % k) : d = a := by
  have hsub : (d - a) % k = 0 := Nat.sub_mod_eq_zero_of_mod_eq hmod
  rw [Nat.mod_eq_of_lt (by omega)] at hsub
  omega

theorem block_window (hle : E ≤ A) (hge : A ≤ E + 1) (hn : B ≤ n) (hnk : n < k * B) :
    E / B < (A + n) / B ∧ (A + n) / B ≤ E / B + k := by
  have hB : 0 < B := Nat.pos_of_ne_zero fun h => by subst h; omega
  have hfloor : E / B * B ≤ E := Nat.div_mul_le_self E B
  have hceil : E < (E / B + 1) * B := Nat.lt_mul_of_div_lt (Nat.lt_succ_self _) hB
  refine ⟨?_, ?_⟩
  · rw [Nat.lt_iff_add_one_le, Nat.le_div_iff_mul_le hB, Nat.add_mul]
    omega
  · apply Nat.le_of_lt_succ
    rw [Nat.div_lt_iff_lt_mul hB]
    calc A + n < (E / B + 1) * B + k * B := by omega
      _ = (E / B + k).succ * B := by rw [← Nat.add_mul]; congr 1; omega

/-- A block that begins at `A` holds the ticks from `A` on. -/
theorem block_of_dvd (hB : 0 < B) (hA : B ∣ A) (hD : D / B = A / B) : A ≤ D ∧ D < A + B := by
  have hbegin : A / B * B = A := Nat.div_mul_cancel hA
  have hfloor : D / B * B ≤ D := Nat.div_mul_le_self D B
  have hceil : D < (D / B + 1) * B := Nat.lt_mul_of_div_lt (Nat.lt_succ_self _) hB
  rw [hD] at hfloor hceil
  rw [Nat.add_mul] at hceil
  omega

theorem block_succ (hA : B ∣ E + 1) : (E + 1) / B = E / B + 1 := by
  rw [Nat.succ_div_of_dvd hA]

theorem block_succ_of_not_dvd (hA : ¬ B ∣ E + 1) : (E + 1) / B = E / B := by
  rw [Nat.succ_div_of_not_dvd hA]

/-- The field of `b` bits from bit `a` on, of a counter of `w` bits. -/
theorem mod_div_mod (D : Nat) {a b w : Nat} (h : a + b ≤ w) :
    D % 2 ^ w / 2 ^ a % 2 ^ b = D / 2 ^ a % 2 ^ b := by
  have hw : 2 ^ w = 2 ^ a * 2 ^ (w - a) := by
    rw [← Nat.pow_add]
    congr 1
    omega
  rw [hw, Nat.mod_mul_right_div_self]
  exact Nat.mod_mod_of_dvd _ (Nat.pow_dvd_pow 2 (by omega))

end Libws.Wheel
