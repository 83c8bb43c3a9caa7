/-!
# Results that may be missing

A computation in `Option` that should end with `P`; where it does not end, `why` is the reason.

* `Outcome.bind`, `Outcome.map` — one call after the other, with the same reasons;
* `Outcome.imp` — weaker ends, more reasons;
* `exists_map_prod_iff` — results that come with a state.
-/

set_option autoImplicit false

namespace Libws

variable {α β : Type} {why why' : Prop} {P : α → Prop} {Q : β → Prop}

def Outcome (why : Prop) (P : α → Prop) : Option α → Prop
  | none => why
  | some x => P x

namespace Outcome

theorem of_some {r : Option α} {x : α} (hr : r = some x) (hx : P x) : Outcome why P r := hr ▸ hx

theorem bind {r : Option α} {f : α → Option β} (h : Outcome why P r) (hf : ∀ x, P x → Outcome why Q (f x)) :
    Outcome why Q (r.bind f) := by
  cases r with
  | none => exact h
  | some x => exact hf x h

theorem map {r : Option α} {f : α → β} (h : Outcome why P r) (hf : ∀ x, P x → Q (f x)) :
    Outcome why Q (r.map f) := by
  cases r with
  | none => exact h
  | some x => exact hf x h

theorem imp {P' : α → Prop} {r : Option α} (h : Outcome why P r) (hwhy : why → why') (hP : ∀ x, P x → P' x) :
    Outcome why' P' r := by
  cases r with
  | none => exact hwhy h
  | some x => exact hP x h

theorem because {r : Option α} (h : Outcome why P r) (hwhy : why → why') : Outcome why' P r :=
  h.imp hwhy fun _ => id

theorem result {r : Option α} {x : α} (h : Outcome why P r) (hr : r = some x) : P x := by
  rw [hr] at h
  exact h

theorem reason {r : Option α} (h : Outcome why P r) (hr : r = none) : why := by
  rw [hr] at h
  exact h

end Outcome

/-- A result that comes with a state is there if and only if the result is. -/
theorem exists_map_prod_iff {σ : Type} (s : σ) {r : Option α} {x : α} :
    (∃ s', r.map (fun y => (s, y)) = some (s', x)) ↔ r = some x := by
  cases r with
  | none => simp
  | some y => simp

end Libws
