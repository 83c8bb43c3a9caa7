import Mathlib.Algebra.Group.Int.Defs
import Mathlib.Algebra.Group.Nat.Defs

/-!
# Memory blocks with checked access, and growth by doubling

A block is the list of its cells.  An access outside the block has no defined outcome: `read`,
`write` and `move` (`memcpy` from, `memcpy` to, `memmove` inside a block) answer `none` then.
`realloc` keeps the cells that fit and leaves in the others whatever `fresh` says, offset by
offset.

* `take_write`, `drop_write_of_le` — what a write leaves where.
* `overwrite` — the cells of a block after a write to its start.
* `doubleUntil` — the loop `while (size > cap) cap *= 2` on machine words of `2 ^ 64`; `none`
  is a loop that does not end.  `doubleUntil_spec` — from a positive capacity and for sizes up
  to `2 ^ 63` it ends with enough room, and no wrap happened.
-/

set_option autoImplicit false

namespace Libws.Block

variable {α : Type}

/-! ## Access -/

def read (b : List α) (off len : Nat) : Option (List α) :=
  if off + len ≤ b.length then some ((b.drop off).take len) else none

def write (b : List α) (off : Nat) (xs : List α) : Option (List α) :=
  if off + xs.length ≤ b.length then some (b.take off ++ xs ++ b.drop (off + xs.length)) else none

def move (b : List α) (dst src len : Nat) : Option (List α) :=
  (read b src len).bind (write b dst)

def realloc (fresh : Nat → α) (b : List α) (n : Nat) : List α :=
  b.take n ++ (List.range' b.length (n - b.length)).map fresh

def malloc (fresh : Nat → α) (n : Nat) : List α := realloc fresh [] n

theorem read_of_le {b : List α} {off len : Nat} (h : off + len ≤ b.length) :
    read b off len = some ((b.drop off).take len) := if_pos h

theorem read_length {b xs : List α} {off len : Nat} (h : read b off len = some xs) : xs.length = len := by
  unfold read at h
  split at h
  · rw [← Option.some.inj h, List.length_take, List.length_drop]
    omega
  · cases h

theorem write_of_le (b xs : List α) (off : Nat) (h : off + xs.length ≤ b.length) :
    write b off xs = some (b.take off ++ xs ++ b.drop (off + xs.length)) := if_pos h

theorem write_eq_some {b b' xs : List α} {off : Nat} (h : write b off xs = some b') :
    off + xs.length ≤ b.length ∧ b' = b.take off ++ xs ++ b.drop (off + xs.length) := by
  unfold write at h
  split at h
  · rename_i hle
    exact ⟨hle, (Option.some.inj h).symm⟩
  · cases h

theorem write_length {b b' xs : List α} {off : Nat} (h : write b off xs = some b') :
    b'.length = b.length := by
  obtain ⟨hle, rfl⟩ := write_eq_some h
  simp only [List.length_append, List.length_take, List.length_drop]
  omega

theorem write_nil {b b' : List α} {off : Nat} (h : write b off [] = some b') : b' = b := by
  obtain ⟨-, rfl⟩ := write_eq_some h
  simp

/-- Everything up to the end of the written range. -/
theorem take_write {b b' xs : List α} {off : Nat} (h : write b off xs = some b') :
    b'.take (off + xs.length) = b.take off ++ xs := by
  obtain ⟨hle, rfl⟩ := write_eq_some h
  have hlen : (b.take off ++ xs).length = off + xs.length := by simp; omega
  rw [← hlen, List.take_append_of_le_length (Nat.le_refl _), List.take_length]

/-- A write leaves the cells behind it. -/
theorem drop_write_of_le {b b' xs : List α} {off n : Nat} (h : write b off xs = some b')
    (hn : off + xs.length ≤ n) : b'.drop n = b.drop n := by
  obtain ⟨hle, rfl⟩ := write_eq_some h
  have hlen : (b.take off ++ xs).length = off + xs.length := by simp; omega
  rw [List.drop_append, List.drop_of_length_le (by omega), hlen, List.drop_drop]
  rw [List.nil_append, show off + xs.length + (n - (off + xs.length)) = n by omega]

/-- `xs` over the first cells of a block. -/
def overwrite (b xs : List α) : List α := xs ++ b.drop xs.length

theorem write_front (b xs : List α) (h : xs.length ≤ b.length) :
    write b 0 xs = some (overwrite b xs) := by
  rw [write_of_le b xs 0 (by omega), List.take_zero, List.nil_append, Nat.zero_add]
  rfl

/-- A second write right behind the first one. -/
theorem write_behind (b xs ys : List α) (h : xs.length + ys.length ≤ b.length) :
    write (overwrite b xs) xs.length ys = some (overwrite b (xs ++ ys)) := by
  have hlen : (overwrite b xs).length = b.length := by
    simp only [overwrite, List.length_append, List.length_drop]
    omega
  rw [write_of_le _ _ _ (by omega)]
  simp only [overwrite, List.take_left, List.length_append, List.append_assoc]
  rw [List.drop_append, List.drop_of_length_le (by omega), List.nil_append, List.drop_drop]
  congr 4
  omega

theorem move_of_le (b : List α) (dst src len : Nat) (hs : src + len ≤ b.length)
    (hd : dst + len ≤ b.length) :
    move b dst src len =
      some (b.take dst ++ (b.drop src).take len ++ b.drop (dst + len)) := by
  have hlen : ((b.drop src).take len).length = len := by simp; omega
  rw [move, read_of_le hs, Option.bind_some, write_of_le _ _ _ (by rw [hlen]; exact hd), hlen]

theorem move_length {b b' : List α} {dst src len : Nat} (h : move b dst src len = some b') :
    b'.length = b.length := by
  obtain ⟨xs, -, hwrite⟩ := Option.bind_eq_some_iff.mp h
  exact write_length hwrite

theorem realloc_length (fresh : Nat → α) (b : List α) (n : Nat) :
    (realloc fresh b n).length = n := by
  simp only [realloc, List.length_append, List.length_take, List.length_map, List.length_range']
  omega

theorem malloc_length (fresh : Nat → α) (n : Nat) : (malloc fresh n).length = n :=
  realloc_length fresh [] n

/-- The cells that fit are kept. -/
theorem take_realloc (fresh : Nat → α) {b : List α} {n m : Nat} (hb : m ≤ b.length) (hn : m ≤ n) :
    (realloc fresh b n).take m = b.take m := by
  rw [realloc, List.take_append_of_le_length (by simp; omega), List.take_take,
    Nat.min_eq_left hn]

/-- A block that only grows is kept whole. -/
theorem realloc_of_le (fresh : Nat → α) {b : List α} {n : Nat} (h : b.length ≤ n) :
    ∃ junk : List α, realloc fresh b n = b ++ junk ∧ junk.length = n - b.length :=
  ⟨_, by rw [realloc, List.take_of_length_le h], by simp⟩

/-! ## Growth by doubling -/

/-- `while (size > cap) cap *= 2`, at most `fuel` tests of the condition. -/
def doubleUntil (size : Nat) : Nat → Nat → Option Nat
  | 0, _ => none
  | fuel + 1, cap => if size > cap then doubleUntil size fuel (cap * 2 % 2 ^ 64) else some cap

/-- Sixty-five tests decide the loop: sixty-four doublings shift every bit of the word out. -/
abbrev growCap (size cap : Nat) : Option Nat := doubleUntil size 65 cap

theorem doubleUntil_of_le {size cap : Nat} (fuel : Nat) (h : size ≤ cap) :
    doubleUntil size (fuel + 1) cap = some cap := by
  rw [doubleUntil, if_neg (by omega)]

/-- Where the loop ends there is room; if it ran at all, the capacity is a word. -/
theorem doubleUntil_inv {size c : Nat} :
    ∀ (fuel cap : Nat), doubleUntil size fuel cap = some c →
      size ≤ c ∧ (c = cap ∨ cap < size ∧ c < 2 ^ 64)
  | 0, _, h => by cases h
  | fuel + 1, cap, h => by
    rw [doubleUntil] at h
    split at h
    · obtain ⟨hle, hc⟩ := doubleUntil_inv fuel _ h
      omega
    · cases h
      omega

/-- While no wrap can happen, the loop ends with enough room and less than twice too much. -/
theorem doubleUntil_spec {size : Nat} (hsize : size ≤ 2 ^ 63) :
    ∀ (fuel cap : Nat), 0 < cap → size ≤ cap * 2 ^ fuel →
      ∃ c, doubleUntil size (fuel + 1) cap = some c ∧ size ≤ c ∧ cap ≤ c ∧
        (c = cap ∨ c < 2 * size) := by
  intro fuel
  induction fuel with
  | zero =>
    intro cap _ hfuel
    exact ⟨cap, doubleUntil_of_le 0 (by omega), by omega, Nat.le_refl _, Or.inl rfl⟩
  | succ fuel ih =>
    intro cap hcap hfuel
    by_cases hlt : size > cap
    · have hwrap : cap * 2 % 2 ^ 64 = cap * 2 := Nat.mod_eq_of_lt (by omega)
      have hfuel' : size ≤ cap * 2 * 2 ^ fuel := by rw [Nat.mul_assoc, ← Nat.pow_succ']; exact hfuel
      obtain ⟨c, hc, hs, hle, hbound⟩ := ih (cap * 2) (by omega) hfuel'
      refine ⟨c, ?_, hs, by omega, by omega⟩
      rw [doubleUntil, if_pos hlt, hwrap, hc]
    · exact ⟨cap, doubleUntil_of_le _ (by omega), by omega, Nat.le_refl _, Or.inl rfl⟩

/-- A loop that does not end for a size does not end for a greater one. -/
theorem doubleUntil_none_of_le {size size' : Nat} (hle : size ≤ size') :
    ∀ (fuel cap : Nat), doubleUntil size fuel cap = none → doubleUntil size' fuel cap = none
  | 0, _, _ => rfl
  | fuel + 1, cap, h => by
    rw [doubleUntil] at h ⊢
    split at h
    · rw [if_pos (by omega)]
      exact doubleUntil_none_of_le hle fuel _ h
    · cases h

theorem doubleUntil_none_of_succ {size : Nat} :
    ∀ (fuel cap : Nat), doubleUntil size (fuel + 1) cap = none → doubleUntil size fuel cap = none
  | 0, _, _ => rfl
  | fuel + 1, cap, h => by
    rw [doubleUntil] at h ⊢
    split at h
    · rename_i hlt
      rw [if_pos hlt]
      exact doubleUntil_none_of_succ fuel _ h
    · cases h

/-- Growing twice is no way around it. -/
theorem doubleUntil_none_of_trans {size size' c : Nat} (hle : size ≤ size') :
    ∀ (fuel cap : Nat), doubleUntil size fuel cap = some c → doubleUntil size' fuel c = none →
      doubleUntil size' fuel cap = none
  | 0, _, _, _ => rfl
  | fuel + 1, cap, h, hc => by
    rw [doubleUntil] at h
    split at h
    · rw [doubleUntil, if_pos (by omega)]
      exact doubleUntil_none_of_trans hle fuel _ h (doubleUntil_none_of_succ fuel c hc)
    · cases h
      exact hc

/-- From a capacity of 0 the loop does not end, however often the condition is tested. -/
theorem doubleUntil_zero {size : Nat} (hsize : 0 < size) : ∀ fuel : Nat, doubleUntil size fuel 0 = none
  | 0 => rfl
  | fuel + 1 => by
    rw [doubleUntil, if_pos hsize]
    exact doubleUntil_zero hsize fuel

/-- **Growth.**  From any positive capacity, for any size up to `2 ^ 63`. -/
theorem growCap_spec (size cap : Nat) (hsize : size ≤ 2 ^ 63) (hcap : 0 < cap) :
    ∃ c, growCap size cap = some c ∧ size ≤ c ∧ cap ≤ c ∧ (c = cap ∨ c < 2 * size) :=
  doubleUntil_spec hsize 64 cap hcap
    (Nat.le_trans hsize (Nat.le_trans (by decide : 2 ^ 63 ≤ 1 * 2 ^ 64)
      (Nat.mul_le_mul_right _ hcap)))

end Libws.Block
