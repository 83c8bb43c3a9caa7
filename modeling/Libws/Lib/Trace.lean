/-!
# Traces of a run

A run writes down what happens, one event after the other; a fact about every event of the trace is
kept when it holds of the event that is appended.

* `getElem?_concat` — an event of a longer trace is an old one or the new one;
* `Before` — what holds of each event and of the trace in front of it;
* `Since` — what has come since every event of a kind.
-/

set_option autoImplicit false

namespace Libws.Trace

variable {ε : Type}

/-- An event of a longer trace is an old one or the new one. -/
theorem getElem?_concat {out : List ε} {e r : ε} {k : Nat} (h : (out ++ [r])[k]? = some e) :
    k < out.length ∧ out[k]? = some e ∨ k = out.length ∧ e = r := by
  rcases Nat.lt_trichotomy k out.length with hlt | rfl | hgt
  · rw [List.getElem?_append_left hlt] at h
    exact Or.inl ⟨hlt, h⟩
  · rw [List.getElem?_concat_length] at h
    exact Or.inr ⟨rfl, (Option.some.inj h).symm⟩
  · rw [List.getElem?_eq_none (by rw [List.length_append, List.length_singleton]; omega)] at h
    cases h

/-- `P` holds of each event and of the trace in front of it. -/
def Before (P : ε → List ε → Prop) (out : List ε) : Prop := ∀ (k : Nat) e, out[k]? = some e → P e (out.take k)

theorem before_nil (P : ε → List ε → Prop) : Before P [] := fun k e h => by cases h

theorem Before.concat {P : ε → List ε → Prop} {out : List ε} {r : ε} (h : Before P out) (hr : P r out) :
    Before P (out ++ [r]) := by
  intro k e hk
  rcases getElem?_concat hk with ⟨hlt, hold⟩ | ⟨rfl, rfl⟩
  · rw [List.take_append_of_le_length (Nat.le_of_lt hlt)]
    exact h k e hold
  · rw [List.take_left]
    exact hr

theorem Before.imp {P Q : ε → List ε → Prop} {out : List ε} (h : Before P out)
    (hPQ : ∀ e before, P e before → Q e before) : Before Q out :=
  fun k e hk => hPQ e _ (h k e hk)

/-- Behind every event of the kind `P` there is an `m`. -/
def Since (P : ε → Prop) (m : ε) (out : List ε) : Prop :=
  ∀ (k : Nat) e, out[k]? = some e → P e → m ∈ out.drop (k + 1)

theorem since_nil (P : ε → Prop) (m : ε) : Since P m [] := fun k e h => by cases h

theorem Since.concat {P : ε → Prop} {m r : ε} {out : List ε} (h : Since P m out) (hr : ¬ P r) :
    Since P m (out ++ [r]) := by
  intro k e hk he
  rcases getElem?_concat hk with ⟨hlt, hold⟩ | ⟨-, rfl⟩
  · rw [List.drop_append_of_le_length hlt]
    exact List.mem_append_left _ (h k e hold he)
  · exact absurd he hr

/-- It has just come. -/
theorem Since.here {P : ε → Prop} {m : ε} (out : List ε) (hm : ¬ P m) : Since P m (out ++ [m]) := by
  intro k e hk he
  rcases getElem?_concat hk with ⟨hlt, -⟩ | ⟨-, rfl⟩
  · rw [List.drop_append_of_le_length hlt]
    exact List.mem_append_right _ (List.mem_singleton_self m)
  · exact absurd he hm

theorem Since.imp {P Q : ε → Prop} {m : ε} {out : List ε} (h : Since P m out)
    (hQP : ∀ e, Q e → P e) : Since Q m out :=
  fun k e hk he => h k e hk (hQP e he)

end Libws.Trace
