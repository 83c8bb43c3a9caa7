/-!
# Cutting a list at a separator

The cuts are made at the leftmost occurrence of the separator, then at the leftmost one behind it,
and so on: two of them do not overlap.

* `occurrences` — how many there are;
* `cut` — the tokens between them, the first one behind `carry`;
* `intercalate_cut`, `cut_length`, `not_infix_of_mem_cut` — they join to the list, they are one more
  than the occurrences, and none of them contains the separator.
-/

set_option autoImplicit false

namespace Libws.Tokens

variable {α : Type} [DecidableEq α]

/-- The leftmost occurrences of `sep` that do not overlap. -/
def occurrences (sep : List α) : List α → Nat
  | [] => 0
  | a :: s => if sep <+: a :: s then occurrences sep (s.drop (sep.length - 1)) + 1 else occurrences sep s
termination_by s => s.length
decreasing_by
  · simp only [List.length_drop, List.length_cons]
    omega
  · exact Nat.lt_succ_self _

def cut (sep carry : List α) : List α → List (List α)
  | [] => [carry]
  | a :: s => if sep <+: a :: s then carry :: cut sep [] (s.drop (sep.length - 1)) else cut sep (carry ++ [a]) s
termination_by s => s.length
decreasing_by
  · simp only [List.length_drop, List.length_cons]
    omega
  · exact Nat.lt_succ_self _

variable {sep : List α}

omit [DecidableEq α] in
theorem drop_tail (hne : sep ≠ []) (a : α) (s : List α) : s.drop (sep.length - 1) = (a :: s).drop sep.length := by
  obtain ⟨n, hn⟩ := Nat.exists_eq_succ_of_ne_zero (mt List.length_eq_zero_iff.mp hne)
  rw [hn, Nat.succ_sub_one, Nat.succ_eq_add_one, List.drop_succ_cons]

/-- An occurrence at the front. -/
theorem cut_of_occurrence (hne : sep ≠ []) (carry : List α) {s : List α} (h : sep <+: s) :
    cut sep carry s = carry :: cut sep [] (s.drop sep.length) := by
  cases s with
  | nil => exact absurd (List.prefix_nil.mp h) hne
  | cons a s => rw [cut, if_pos h, drop_tail hne]

theorem cut_of_skip (carry : List α) {a : α} {s : List α} (h : ¬ sep <+: a :: s) :
    cut sep carry (a :: s) = cut sep (carry ++ [a]) s := by
  rw [cut, if_neg h]

/-- Too short for an occurrence. -/
theorem cut_of_short : ∀ (carry s : List α), s.length < sep.length → cut sep carry s = [carry ++ s]
  | carry, [], _ => by rw [cut, List.append_nil]
  | carry, a :: s, h => by
    have hno : ¬ sep <+: a :: s := fun hoccurs => Nat.not_lt_of_le hoccurs.length_le h
    rw [cut_of_skip carry hno, cut_of_short _ s (Nat.lt_of_succ_lt h), List.append_assoc, List.singleton_append]

/-- The carry only stands in front of the first token. -/
theorem cut_carry (sep s : List α) : ∃ t ts, ∀ carry, cut sep carry s = (carry ++ t) :: ts := by
  induction s using occurrences.induct sep with
  | case1 => exact ⟨[], [], fun carry => by rw [cut, List.append_nil]⟩
  | case2 a s h ih => exact ⟨[], _, fun carry => by rw [cut, if_pos h, List.append_nil]⟩
  | case3 a s h ih =>
    obtain ⟨t, ts, hts⟩ := ih
    exact ⟨a :: t, ts, fun carry => by rw [cut_of_skip _ h, hts, List.append_assoc, List.singleton_append]⟩

theorem cut_ne_nil (carry s : List α) : cut sep carry s ≠ [] := by
  obtain ⟨t, ts, hts⟩ := cut_carry sep s
  simp [hts]

/-- **The tokens join to the list.** -/
theorem intercalate_cut (hne : sep ≠ []) (carry s : List α) : sep.intercalate (cut sep carry s) = carry ++ s := by
  induction s using occurrences.induct sep generalizing carry with
  | case1 => simp [cut]
  | case2 a s h ih =>
    have hrest : sep ++ s.drop (sep.length - 1) = a :: s := by
      rw [drop_tail hne a s, List.prefix_iff_eq_append.mp h]
    rw [cut, if_pos h, List.intercalate_cons_of_ne_nil (cut_ne_nil _ _), ih, List.nil_append,
      List.append_assoc, hrest]
  | case3 a s h ih => rw [cut_of_skip _ h, ih, List.append_assoc, List.singleton_append]

/-- **One token more than occurrences.** -/
theorem cut_length (carry s : List α) : (cut sep carry s).length = occurrences sep s + 1 := by
  induction s using occurrences.induct sep generalizing carry with
  | case1 => simp [cut, occurrences]
  | case2 a s h ih => rw [cut, if_pos h, List.length_cons, ih, occurrences, if_pos h]
  | case3 a s h ih => rw [cut_of_skip _ h, ih, occurrences, if_neg h]

/-- No occurrence begins in the carry. -/
def Clean (sep carry s : List α) : Prop := ∀ i < carry.length, ¬ sep <+: (carry ++ s).drop i

omit [DecidableEq α] in
/-- What begins and ends in the carry would begin in it. -/
theorem Clean.not_infix {carry s : List α} (h : Clean sep carry s) (hne : sep ≠ []) : ¬ sep <:+: carry := by
  rintro ⟨front, back, hcarry⟩
  have hpos := List.length_pos_iff.mpr hne
  refine h front.length (by rw [← hcarry]; simp; omega) ⟨back ++ s, ?_⟩
  rw [← hcarry]
  simp

/-- **No token contains the separator.** -/
theorem not_infix_of_mem_cut (hne : sep ≠ []) (carry s : List α) (hclean : Clean sep carry s) :
    ∀ t ∈ cut sep carry s, ¬ sep <:+: t := by
  induction s using occurrences.induct sep generalizing carry with
  | case1 =>
    rw [cut]
    rintro t ht
    rw [List.mem_singleton.mp ht]
    exact hclean.not_infix hne
  | case2 a s h ih =>
    rw [cut, if_pos h]
    intro t ht
    rcases List.mem_cons.mp ht with rfl | ht
    · exact hclean.not_infix hne
    · exact ih [] (fun i hi => absurd hi (Nat.not_lt_zero i)) t ht
  | case3 a s h ih =>
    rw [cut_of_skip _ h]
    refine ih (carry ++ [a]) fun i hi => ?_
    rw [List.append_assoc, List.singleton_append]
    rcases Nat.lt_or_ge i carry.length with hlt | hge
    · exact hclean i hlt
    · have hi : i = carry.length := by simp at hi; omega
      rw [hi, List.drop_left]
      exact h

end Libws.Tokens
