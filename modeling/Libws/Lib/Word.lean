import Mathlib.Algebra.Group.Int.Defs
import Mathlib.Algebra.Group.Nat.Defs

/-!
# Machine words as natural numbers, and little-endian representations

Unsigned arithmetic of width 64 on `Nat`, with the wrap written out; where no wrap can happen,
`add64_of_lt` and `sub64_of_le` turn it back into plain arithmetic.  `leBytes w n` is the object
representation of the number `n` in `w` bytes.
-/

set_option autoImplicit false

namespace Libws.Word

def add64 (a b : Nat) : Nat := (a + b) % 2 ^ 64

def sub64 (a b : Nat) : Nat := (a + (2 ^ 64 - b % 2 ^ 64)) % 2 ^ 64

theorem add64_of_lt {a b : Nat} (h : a + b < 2 ^ 64) : add64 a b = a + b :=
  Nat.mod_eq_of_lt h

theorem sub64_of_le {a b : Nat} (hle : b ≤ a) (ha : a < 2 ^ 64) : sub64 a b = a - b := by
  unfold sub64
  rw [Nat.mod_eq_of_lt (show b < 2 ^ 64 by omega)]
  omega

/-- The sum wraps. -/
theorem add64_of_ge {a b : Nat} (h : 2 ^ 64 ≤ a + b) (hlt : a + b < 2 * 2 ^ 64) : add64 a b = a + b - 2 ^ 64 := by
  unfold add64
  omega

/-- The difference wraps. -/
theorem sub64_of_lt {a b : Nat} (h : a < b) (hb : b < 2 ^ 64) : sub64 a b = a + 2 ^ 64 - b := by
  unfold sub64
  rw [Nat.mod_eq_of_lt hb]
  omega

/-- A conversion to an unsigned word is modulo its range. -/
theorem toNat_ofInt (i : Int) : ((UInt64.ofInt i).toNat : Int) = i % 2 ^ 64 := by
  simp only [UInt64.ofInt, UInt64.toNat_ofNat']
  omega

/-! ## Little-endian numbers -/

def leBytes : Nat → Nat → List UInt8
  | 0, _ => []
  | w + 1, n => UInt8.ofNat n :: leBytes w (n / 256)

def leNat : List UInt8 → Nat
  | [] => 0
  | b :: bs => b.toNat + 256 * leNat bs

theorem leBytes_length : ∀ (w n : Nat), (leBytes w n).length = w
  | 0, _ => rfl
  | w + 1, n => by simp [leBytes, leBytes_length w]

theorem leNat_leBytes_mod : ∀ (w n : Nat), leNat (leBytes w n) = n % 256 ^ w
  | 0, n => by simp [leBytes, leNat, Nat.mod_one]
  | w + 1, n => by
    simp only [leBytes, leNat, leNat_leBytes_mod w, UInt8.toNat_ofNat', Nat.pow_succ']
    exact (Nat.mod_mul ..).symm

theorem leNat_leBytes (w n : Nat) (h : n < 256 ^ w) : leNat (leBytes w n) = n := by
  rw [leNat_leBytes_mod, Nat.mod_eq_of_lt h]

/-- The low bytes of a representation. -/
theorem leBytes_take : ∀ {m w n : Nat}, m ≤ w → (leBytes w n).take m = leBytes m n
  | 0, _, _, _ => rfl
  | m + 1, w + 1, n, h => by rw [leBytes, List.take_succ_cons, leBytes_take (Nat.le_of_succ_le_succ h), leBytes]

end Libws.Word
