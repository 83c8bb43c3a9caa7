import Libws.Core.ByteArrays

/-!
# Seeking in a `ByteArray`

`seek(int)` adds to the read position, or subtracts from it, in `size_t`; the setter then cuts off what is
behind the write position.  It sees the wrapped number only: a target below zero is one far behind the end.

* `seekInt` — `seek` for an `int`, whose negation may not be defined;
* `seek_inside`, `seek_below`, `seek_above` — where it goes: to the target, or `2 ^ 64` away from it;
* `seek_clamps_iff` — exactly when that is the target, cut off at both ends.
-/

set_option autoImplicit false

namespace Libws.Core

open Libws.Word

namespace ByteArray

variable {b : ByteArray} {pos : Int}

/-- `seek(int)`: the negation of the smallest `int` is not an `int`, and has no defined outcome. -/
def seekInt (b : ByteArray) (pos : Int) : Option ByteArray :=
  if pos = -2 ^ 31 then none else some (b.seek pos)

/-- The read position moves by `pos`, as far as the bytes reach on either side. -/
def SeeksTo (b : ByteArray) (pos : Int) : Prop :=
  ∃ b', b.seekInt pos = some b' ∧ (b'.readPos : Int) = max 0 (min ((b.readPos : Int) + pos) (b.writePos : Int)) ∧
    (pos < 0 → b'.readPos ≤ b.readPos)

theorem readPosition_readPos (b : ByteArray) (value : Nat) :
    (b.readPosition value).readPos = min value b.writePos := by
  show (if value > b.writePos then b.writePos else value) = _
  split <;> omega

theorem seek_forward (b : ByteArray) (h : 0 < pos) :
    (b.seek pos).readPos = min (add64 b.readPos pos.toNat) b.writePos := by
  rw [seek, if_pos h, readPosition_readPos]

theorem seek_backward (b : ByteArray) (h : pos < 0) :
    (b.seek pos).readPos = min (sub64 b.readPos (-pos).toNat) b.writePos := by
  rw [seek, if_neg (by omega), if_pos h, readPosition_readPos]

section

variable (hread : b.readPos ≤ b.writePos) (hwrite : b.writePos < 2 ^ 64) (hmin : -2 ^ 31 ≤ pos)
  (hmax : pos < 2 ^ 31)

include hread hwrite hmin hmax

theorem seek_inside (hlow : 0 ≤ (b.readPos : Int) + pos) (hhigh : (b.readPos : Int) + pos < 2 ^ 64) :
    ((b.seek pos).readPos : Int) = min ((b.readPos : Int) + pos) (b.writePos : Int) := by
  obtain hback | rfl | hpos := Int.lt_trichotomy pos 0
  · rw [seek_backward b hback, sub64_of_le (by omega) (by omega)]
    omega
  · show (b.readPos : Int) = _
    omega
  · rw [seek_forward b hpos, add64_of_lt (by omega)]
    omega

theorem seek_below (hlow : (b.readPos : Int) + pos < 0) :
    ((b.seek pos).readPos : Int) = min ((b.readPos : Int) + pos + 2 ^ 64) (b.writePos : Int) := by
  rw [seek_backward b (by omega), sub64_of_lt (by omega) (by omega)]
  omega

theorem seek_above (hhigh : 2 ^ 64 ≤ (b.readPos : Int) + pos) :
    ((b.seek pos).readPos : Int) = (b.readPos : Int) + pos - 2 ^ 64 := by
  rw [seek_forward b (by omega), add64_of_ge (by omega) (by omega)]
  omega

end

/-- **Seeking is cut off at both ends exactly when the target does not wrap**, or there is no byte at all. -/
theorem seek_clamps_iff (b : ByteArray) (pos : Int) (hread : b.readPos ≤ b.writePos) (hwrite : b.writePos < 2 ^ 64)
    (hmin : -2 ^ 31 ≤ pos) (hmax : pos < 2 ^ 31) :
    SeeksTo b pos ↔ pos ≠ -2 ^ 31 ∧ (b.writePos = 0 ∨ (0 ≤ b.readPos + pos ∧ b.readPos + pos < 2 ^ 64)) := by
  constructor
  · rintro ⟨b', hseek, hclamp, -⟩
    unfold seekInt at hseek
    split at hseek
    · cases hseek
    · rename_i hint
      cases hseek
      refine ⟨hint, ?_⟩
      by_cases hlow : (b.readPos : Int) + pos < 0
      · have hbelow := seek_below hread hwrite hmin hmax hlow
        omega
      · by_cases hhigh : (b.readPos : Int) + pos < 2 ^ 64
        · exact Or.inr ⟨by omega, hhigh⟩
        · have habove := seek_above hread hwrite hmin hmax (by omega)
          omega
  · rintro ⟨hint, hfits⟩
    refine ⟨b.seek pos, if_neg hint, ?_⟩
    by_cases hlow : (b.readPos : Int) + pos < 0
    · have hbelow := seek_below hread hwrite hmin hmax hlow
      omega
    · have hinside := seek_inside hread hwrite hmin hmax (by omega) (by omega)
      omega

theorem seek_clamps_two : SeeksTo { ofBytes [1, 2, 3] true with readPos := 2 } (-2) :=
  (seek_clamps_iff { ofBytes [1, 2, 3] true with readPos := 2 } (-2) (by decide) (by decide) (by decide)
    (by decide)).mpr (by decide)

/-- **A step back from the first byte goes behind the last one.** -/
theorem seek_back_moves_forward : ¬ ∀ (b : ByteArray) (pos : Int), b.readPos ≤ b.writePos → b.writePos < 2 ^ 64 →
    -2 ^ 31 ≤ pos → pos < 2 ^ 31 → SeeksTo b pos := by
  intro hclaim
  obtain ⟨b', hseek, -, hback⟩ :=
    hclaim (ofBytes [1, 2, 3] true) (-1) (by decide) (by decide) (by decide) (by decide)
  have hend : b' = { ofBytes [1, 2, 3] true with readPos := 3 } := by
    rw [show (ofBytes [1, 2, 3] true).seekInt (-1) = some { ofBytes [1, 2, 3] true with readPos := 3 } by
      decide +kernel] at hseek
    exact (Option.some.inj hseek).symm
  rw [hend] at hback
  exact absurd (hback (by decide)) (by decide)

end ByteArray

end Libws.Core
