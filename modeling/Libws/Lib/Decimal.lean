import Mathlib.Data.List.TakeWhile

/-!
# Decimal texts of integers

`text` is the shortest decimal text of an integer, and `parse` the value that the functions of the `strtol`
family find at the start of a text: blanks, a sign and digits.

`parse_text` — a number is read back from its text.
-/

set_option autoImplicit false

namespace Libws.Decimal

/-- `isspace` of the C locale. -/
def isSpace (c : Char) : Bool := c ∈ [' ', '\t', '\n', '\x0b', '\x0c', '\r']

/-- The digits at the start of a text. -/
def magnitude (cs : List Char) : Nat := Nat.ofDigitChars 10 (cs.takeWhile Char.isDigit) 0

def parse (cs : List Char) : Int :=
  match cs.dropWhile isSpace with
  | [] => 0
  | c :: cs => if c = '-' then -(magnitude cs : Int) else if c = '+' then magnitude cs else magnitude (c :: cs)

def text (v : Int) : List Char :=
  if v < 0 then '-' :: Nat.toDigits 10 v.natAbs else Nat.toDigits 10 v.natAbs

theorem magnitude_toDigits (n : Nat) : magnitude (Nat.toDigits 10 n) = n := by
  have hdigits : ∀ c ∈ Nat.toDigits 10 n, c.isDigit = true := fun c hc =>
    Nat.isDigit_of_mem_toDigits (by decide) (by decide) hc
  rw [magnitude, List.takeWhile_eq_self_iff.mpr hdigits, Nat.ofDigitChars_ten_toDigits]

/-- A digit is no blank and no sign. -/
theorem not_special_of_isDigit {c : Char} (h : c.isDigit = true) : isSpace c = false ∧ c ≠ '-' ∧ c ≠ '+' := by
  refine ⟨?_, ?_, ?_⟩
  · by_contra hspace
    simp only [isSpace, Bool.not_eq_false, decide_eq_true_eq, List.mem_cons, List.not_mem_nil, or_false] at hspace
    rcases hspace with rfl | rfl | rfl | rfl | rfl | rfl <;> exact absurd h (by decide)
  · rintro rfl
    exact absurd h (by decide)
  · rintro rfl
    exact absurd h (by decide)

/-- **Round trip.** -/
theorem parse_text (v : Int) : parse (text v) = v := by
  have hmagnitude := magnitude_toDigits v.natAbs
  unfold text
  split
  · rename_i hneg
    simp only [parse, show isSpace '-' = false from by decide, List.dropWhile_cons_of_neg, Bool.false_eq_true,
      not_false_eq_true, if_pos, hmagnitude]
    omega
  · rename_i hnonneg
    cases hdigits : Nat.toDigits 10 v.natAbs with
    | nil => exact absurd hdigits Nat.toDigits_ne_nil
    | cons c cs =>
      have hdigit : c.isDigit = true :=
        Nat.isDigit_of_mem_toDigits (by decide) (by decide) (hdigits ▸ List.mem_cons_self ..)
      obtain ⟨hspace, hminus, hplus⟩ := not_special_of_isDigit hdigit
      rw [hdigits] at hmagnitude
      simp only [parse, List.dropWhile_cons_of_neg, hspace, Bool.false_eq_true, not_false_eq_true, if_neg hminus,
        if_neg hplus, hmagnitude]
      omega

end Libws.Decimal
