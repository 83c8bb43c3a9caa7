import Mathlib.Data.List.Range
import Mathlib.Order.Basic

/-!
# `for` loops that read their bound in every round

`for (i = ..; i <= bound; ++i) body`, where the body may change what `bound` reads.  A body that
fails is `none`, and so is a number or a bound that does not fit the type of `i`, and a loop that is
still running after `left` rounds.

* `forUpTo_inv` — what the body keeps, the loop keeps, and the bound is passed in the end.
* `forUpTo_total` — a loop whose bound stays below `most` comes to its end.
* `forUpTo_still`, `forUpTo_fails` — a loop whose body does nothing or fails does nothing or fails, and
  it fails when the body does once, or when the number behind its bound does not fit.
* `forUpTo_eq_foldlM` — with a bound that does not change, the loop is a fold.
-/

set_option autoImplicit false

namespace Libws.Loop

variable {S : Type}

def forUpTo (fits : Int → Prop) [DecidablePred fits] (bound : S → Int) (body : Int → S → Option S) :
    (left : Nat) → (i : Int) → S → Option S
  | 0, _, _ => none
  | left + 1, i, s =>
    if fits i ∧ fits (bound s) then
      if i ≤ bound s then (body i s).bind (forUpTo fits bound body left (i + 1)) else some s
    else none

section Rounds

variable {fits : Int → Prop} [DecidablePred fits] {bound : S → Int} {body : Int → S → Option S}
  (Inv : Int → S → Prop)

theorem forUpTo_inv (hbody : ∀ i s s', Inv i s → i ≤ bound s → body i s = some s' → Inv (i + 1) s') :
    ∀ (left : Nat) (i : Int) {s s' : S}, Inv i s → forUpTo fits bound body left i s = some s' →
      ∃ j, Inv j s' ∧ bound s' < j
  | 0, _, _, _, _, hloop => by cases hloop
  | left + 1, i, s, s', h, hloop => by
    unfold forUpTo at hloop
    split at hloop
    · split at hloop
      · rename_i hle
        obtain ⟨s₁, hround, hrest⟩ := Option.bind_eq_some_iff.mp hloop
        exact forUpTo_inv hbody left (i + 1) (hbody i s s₁ h hle hround) hrest
      · rename_i hover
        cases hloop
        exact ⟨i, h, Int.not_le.mp hover⟩
    · cases hloop

/-- A loop whose bound stays at most `most` comes to its end, if it has the rounds for it. -/
theorem forUpTo_total {most : Int} (hmost : ∀ i s, Inv i s → bound s ≤ most)
    (hfits : ∀ i s, Inv i s → fits i ∧ fits (bound s))
    (hbody : ∀ i s, Inv i s → i ≤ bound s → ∃ s', body i s = some s' ∧ Inv (i + 1) s') :
    ∀ (left : Nat) (i : Int) (s : S), Inv i s → i ≤ most + 1 → most + 1 < i + left →
    ∃ s', forUpTo fits bound body left i s = some s' ∧ ∃ j, Inv j s'
  | 0, i, s, _, hi, hleft => absurd hleft (by omega)
  | left + 1, i, s, h, hi, hleft => by
    unfold forUpTo
    rw [if_pos (hfits i s h)]
    split
    · rename_i hle
      obtain ⟨s₁, hround, h₁⟩ := hbody i s h hle
      have hbound := hmost i s h
      rw [hround]
      exact forUpTo_total hmost hfits hbody left (i + 1) s₁ h₁ (by omega) (by omega)
    · exact ⟨s, rfl, i, h⟩

end Rounds

section Still

variable {fits : Int → Prop} [DecidablePred fits] {bound : S → Int} {body : Int → S → Option S}
  {s : S} {first : Int}

theorem forUpTo_still (hbody : ∀ i, first ≤ i → i ≤ bound s → body i s = some s ∨ body i s = none) :
    ∀ (left : Nat) (i : Int), first ≤ i →
      forUpTo fits bound body left i s = some s ∨ forUpTo fits bound body left i s = none
  | 0, _, _ => Or.inr rfl
  | left + 1, i, hi => by
    unfold forUpTo
    split
    · split
      · rename_i hle
        rcases hbody i hi hle with hround | hround
        · rw [hround]
          exact forUpTo_still hbody left (i + 1) (by omega)
        · rw [hround]
          exact Or.inr rfl
      · exact Or.inl rfl
    · exact Or.inr rfl

theorem forUpTo_fails (hbody : ∀ i, first ≤ i → i ≤ bound s → body i s = some s ∨ body i s = none) {j : Int}
    (hstuck : j ≤ bound s ∧ body j s = none ∨ j = bound s + 1 ∧ ¬ fits j) :
    ∀ (left : Nat) (i : Int), first ≤ i → i ≤ j → forUpTo fits bound body left i s = none
  | 0, _, _, _ => rfl
  | left + 1, i, hi, hj => by
    unfold forUpTo
    split
    · rename_i hfits
      by_cases hlast : i = j
      · subst hlast
        rcases hstuck with ⟨hle, hround⟩ | ⟨-, hover⟩
        · rw [if_pos hle, hround]
          rfl
        · exact absurd hfits.1 hover
      · have hle : i ≤ bound s := by omega
        rw [if_pos hle]
        rcases hbody i hi hle with hround | hround
        · rw [hround]
          exact forUpTo_fails hbody hstuck left (i + 1) (by omega) (by omega)
        · rw [hround]
          rfl
    · rfl

end Still

section Fixed

variable {fits : Int → Prop} [DecidablePred fits] {bound : S → Int} {body : Int → S → Option S} {Inv : S → Prop}

/-- The last `n` rounds of a loop whose bound stays at `last`. -/
theorem forUpTo_eq_foldlM {last : Int} (hlast : ∀ s, Inv s → bound s = last) (rounds : Nat)
    (hfits : ∀ i, last - rounds < i → i ≤ last + 1 → fits i) (hfirst : fits last)
    (hbody : ∀ i s s', last - rounds < i → i ≤ last → Inv s → body i s = some s' → Inv s') (left : Nat) :
    ∀ (n : Nat) (s : S), n ≤ rounds → Inv s → forUpTo fits bound body (n + (left + 1)) (last + 1 - n) s =
      ((List.range n).map fun k : Nat => last + 1 - n + k).foldlM (fun s i => body i s) s
  | 0, s, _, h => by
    have hover : ¬ last + 1 - (0 : Nat) ≤ bound s := by
      rw [hlast s h]
      omega
    rw [Nat.zero_add, forUpTo, if_pos ⟨hfits _ (by omega) (by omega), (hlast s h).symm ▸ hfirst⟩, if_neg hover]
    rfl
  | n + 1, s, hn, h => by
    have hround : last + 1 - (n + 1 : Nat) ≤ bound s := by
      rw [hlast s h]
      omega
    have hrest : ((List.range n).map fun k : Nat => last + 1 - (n + 1 : Nat) + (k + 1 : Nat)) =
        (List.range n).map fun k : Nat => last + 1 - n + k :=
      List.map_congr_left fun k _ => by omega
    have hhead : last + 1 - (n + 1 : Nat) + (0 : Nat) = last + 1 - (n + 1 : Nat) := by omega
    rw [show n + 1 + (left + 1) = n + (left + 1) + 1 by omega, forUpTo,
      if_pos ⟨hfits _ (by omega) (by omega), (hlast s h).symm ▸ hfirst⟩, if_pos hround, List.range_succ_eq_map,
      List.map_cons, List.map_map, List.foldlM_cons, hhead]
    change _ = (body (last + 1 - (n + 1 : Nat)) s).bind _
    cases hs₁ : body (last + 1 - (n + 1 : Nat)) s with
    | none => rfl
    | some s₁ =>
      have h₁ := hbody _ s s₁ (by omega) (by omega) h hs₁
      have hnext : last + 1 - (n + 1 : Nat) + 1 = last + 1 - (n : Int) := by omega
      rw [Option.bind_some, Option.bind_some, hnext,
        forUpTo_eq_foldlM hlast rounds hfits hfirst hbody left n s₁ (Nat.le_of_succ_le hn) h₁]
      exact congrArg (fun l => l.foldlM (fun s i => body i s) s₁) hrest.symm

variable (Inv)

/-- A loop over the three numbers around `c`. -/
theorem forUpTo_around {c : Int} (hfits : ∀ i, c - 1 ≤ i → i ≤ c + 2 → fits i)
    (hbound : ∀ s, Inv s → bound s = c + 1)
    (hbody : ∀ i s s', i ∈ [c - 1, c, c + 1] → Inv s → body i s = some s' → Inv s') (left : Nat)
    (s : S) (h : Inv s) :
    forUpTo fits bound body (left + 4) (c - 1) s = [c - 1, c, c + 1].foldlM (fun s i => body i s) s := by
  have hmem : ∀ i s s', c + 1 - (3 : Nat) < i → i ≤ c + 1 → Inv s → body i s = some s' → Inv s' :=
    fun i s s' hlow hhigh => hbody i s s' (by simp only [List.mem_cons, List.not_mem_nil, or_false]; omega)
  have hcells : ((List.range 3).map fun k : Nat => c + 1 + 1 - (3 : Nat) + k) = [c - 1, c, c + 1] := by
    simp only [List.range_succ, List.range_zero, List.nil_append, List.cons_append, List.map_cons, List.map_nil]
    congr 1
    · omega
    · congr 1
      · omega
      · congr 1
        omega
  have hfirst : c + 1 + 1 - (3 : Nat) = c - 1 := by omega
  have hloop := forUpTo_eq_foldlM hbound 3 (fun i hlow hhigh => hfits i (by omega) (by omega))
    (hfits (c + 1) (by omega) (by omega)) hmem left 3 s (Nat.le_refl 3) h
  rw [hcells, hfirst, show 3 + (left + 1) = left + 4 by omega] at hloop
  exact hloop

end Fixed

/-! ## Folds -/

theorem foldlM_flatMap {A B : Type} (f : S → B → Option S) (g : A → List B) :
    ∀ (l : List A) (s : S), (l.flatMap g).foldlM f s = l.foldlM (fun s a => (g a).foldlM f s) s
  | [], _ => rfl
  | a :: l, s => by
    rw [List.flatMap_cons, List.foldlM_append, List.foldlM_cons]
    exact congrArg _ (funext fun s => foldlM_flatMap f g l s)

theorem foldlM_inv {A : Type} {Inv : S → Prop} {f : S → A → Option S} : ∀ (l : List A)
    (_ : ∀ s a s', a ∈ l → Inv s → f s a = some s' → Inv s') {s s' : S}, Inv s → l.foldlM f s = some s' → Inv s'
  | [], _, _, _, h, hfold => by
    cases hfold
    exact h
  | a :: l, hkeep, s, s', h, hfold => by
    obtain ⟨s₁, hs, hrest⟩ := Option.bind_eq_some_iff.mp hfold
    exact foldlM_inv l (fun s a s' ha => hkeep s a s' (List.mem_cons_of_mem _ ha))
      (hkeep s a s₁ (List.mem_cons_self ..) h hs) hrest

/-- Two folds that agree where the invariant of the first one holds. -/
theorem foldlM_congr {A : Type} (Inv : S → Prop) {f g : S → A → Option S} : ∀ (l : List A)
    (_ : ∀ s a, a ∈ l → Inv s → f s a = g s a ∧ ∀ s', f s a = some s' → Inv s') (s : S), Inv s →
    l.foldlM f s = l.foldlM g s
  | [], _, _, _ => rfl
  | a :: l, hsame, s, h => by
    obtain ⟨heq, hkeep⟩ := hsame s a (List.mem_cons_self ..) h
    rw [List.foldlM_cons, List.foldlM_cons, ← heq]
    cases hs : f s a with
    | none => rfl
    | some s₁ => exact foldlM_congr Inv l (fun s a ha => hsame s a (List.mem_cons_of_mem _ ha)) s₁ (hkeep s₁ hs)

end Libws.Loop
