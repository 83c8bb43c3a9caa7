import Mathlib.Data.List.Nodup
import Mathlib.Data.List.Perm.Subperm
import Mathlib.Data.Nat.Find
import Mathlib.Logic.Function.Iterate

/-!
# The next free value in a cyclic order

A counter moves on from value to value until it comes to one that is not taken.

* `search` — the loop, which counts its moves down from `fuel`;
* `search_free`, `search_of_free` — it stops at the first free value;
* `exists_free` — among more values than are taken there is a free one.
-/

set_option autoImplicit false

namespace Libws.Cyclic

variable {α : Type} (next : α → α) (taken : α → Bool)

def search : (fuel : Nat) → α → Option α
  | 0, _ => none
  | fuel + 1, a => if taken (next a) then search fuel (next a) else some (next a)

variable {next taken}

theorem search_free {a b : α} : ∀ {fuel : Nat}, search next taken fuel a = some b → taken b = false := by
  intro fuel
  induction fuel generalizing a with
  | zero => exact nofun
  | succ fuel ih =>
    intro h
    rw [search] at h
    split at h
    · exact ih h
    · rename_i hfree
      cases h
      exact eq_false_of_ne_true hfree

/-- The loop stops at the first free value, with no move more. -/
theorem search_of_free {n : Nat} : ∀ {a : α} {fuel : Nat}, n < fuel → taken (next^[n + 1] a) = false →
    (∀ m < n, taken (next^[m + 1] a) = true) → search next taken fuel a = some (next^[n + 1] a) := by
  induction n with
  | zero =>
    intro a fuel hfuel hfree _
    obtain ⟨fuel, rfl⟩ := Nat.exists_eq_succ_of_ne_zero (Nat.ne_of_gt hfuel)
    have hfree : taken (next a) = false := hfree
    rw [search, if_neg (by rw [hfree]; exact Bool.false_ne_true)]
    rfl
  | succ n ih =>
    intro a fuel hfuel hfree hbefore
    obtain ⟨fuel, rfl⟩ := Nat.exists_eq_succ_of_ne_zero (Nat.ne_of_gt (Nat.zero_lt_of_lt hfuel))
    have hfirst : taken (next a) = true := hbefore 0 (Nat.succ_pos n)
    rw [search, if_pos hfirst]
    exact ih (Nat.lt_of_succ_lt_succ hfuel) hfree fun m hm => hbefore (m + 1) (Nat.succ_lt_succ hm)

/-- The first of the values that have a property. -/
theorem exists_first {p : Nat → Bool} {n : Nat} (h : p n = false) :
    ∃ k ≤ n, p k = false ∧ ∀ m < k, p m = true := by
  have hex : ∃ k, p k = false := ⟨n, h⟩
  refine ⟨Nat.find hex, Nat.find_min' hex h, Nat.find_spec hex, fun m hm => ?_⟩
  exact eq_true_of_ne_false (Nat.find_min hex hm)

/-- **Pigeonhole.** -/
theorem exists_free [DecidableEq α] {values : Nat → α} {n : Nat}
    (hinj : ∀ i < n, ∀ j < n, values i = values j → i = j)
    (xs : List α) (hlt : xs.length < n) : ∃ k < n, values k ∉ xs := by
  by_contra hall
  simp only [not_exists, not_and, not_not] at hall
  have hnodup : ((List.range n).map values).Nodup :=
    List.Nodup.map_on (fun i hi j hj => hinj i (List.mem_range.mp hi) j (List.mem_range.mp hj)) List.nodup_range
  have hsub : (List.range n).map values ⊆ xs := fun a ha => by
    obtain ⟨k, hk, rfl⟩ := List.mem_map.mp ha
    exact hall k (List.mem_range.mp hk)
  have hle := (List.subperm_of_subset hnodup hsub).length_le
  rw [List.length_map, List.length_range] at hle
  exact Nat.not_lt_of_le hle hlt

end Libws.Cyclic
