import Mathlib.Logic.Function.Basic
import Mathlib.Data.List.Basic

/-!
# The lives of individuals in a trace

A run deals with many individuals at a time, and writes down what happens.  Of the events about one of them, each
has its turn: it is possible in some phases of a life, and leads to the next phase.

* `LifeCycle.after` — the phase that a trace leaves an individual in; none if an event came out of turn;
* `Follows` — the phases that a whole trace leaves;
* `Follows.event`, `Follows.other` — one more event.
-/

set_option autoImplicit false

namespace Libws.Lives

variable {ι ε Λ : Type}

structure LifeCycle (ι ε Λ : Type) where
  /-- the individual that an event is about -/
  about : ε → Option ι
  birth : Λ
  /-- the phase after an event, none if it has no turn -/
  next : Λ → ε → Option Λ

variable (c : LifeCycle ι ε Λ) [DecidableEq ι]

/-- The phase of an individual after a trace. -/
def LifeCycle.after (i : ι) (trace : List ε) : Option Λ :=
  (trace.filter fun e => c.about e = some i).foldlM c.next c.birth

theorem after_nil (i : ι) : c.after i [] = some c.birth := rfl

theorem after_append (i : ι) (trace more : List ε) :
    c.after i (trace ++ more) =
      (c.after i trace).bind fun life => (more.filter fun e => c.about e = some i).foldlM c.next life := by
  rw [LifeCycle.after, List.filter_append, List.foldlM_append]
  rfl

theorem after_concat_self {i : ι} {e : ε} (h : c.about e = some i) (trace : List ε) :
    c.after i (trace ++ [e]) = (c.after i trace).bind (c.next · e) := by
  rw [after_append]
  simp [h]

theorem after_concat_other {i : ι} {e : ε} (h : c.about e ≠ some i) (trace : List ε) :
    c.after i (trace ++ [e]) = c.after i trace := by
  rw [after_append]
  simp [h]

/-- No event came out of turn, and this is where it has led everyone. -/
def Follows (phase : ι → Λ) (trace : List ε) : Prop := ∀ i, c.after i trace = some (phase i)

variable {c} {phase : ι → Λ} {trace : List ε}

theorem follows_nil (h : ∀ i, phase i = c.birth) : Follows c phase [] := fun i => by rw [after_nil, h]

/-- An event about nobody. -/
theorem Follows.other (h : Follows c phase trace) {e : ε} (he : c.about e = none) :
    Follows c phase (trace ++ [e]) :=
  fun i => by
    rw [after_concat_other c (by rw [he]; exact (Option.some_ne_none i).symm)]
    exact h i

/-- An event that has its turn. -/
theorem Follows.event (h : Follows c phase trace) {e : ε} {i : ι} {life : Λ} (he : c.about e = some i)
    (hnext : c.next (phase i) e = some life) : Follows c (Function.update phase i life) (trace ++ [e]) := by
  intro j
  by_cases hj : j = i
  · subst hj
    rw [after_concat_self c he, h j, Function.update_self]
    exact hnext
  · rw [after_concat_other c (by rw [he]; exact fun heq => hj (Option.some.inj heq).symm), Function.update_of_ne hj]
    exact h j

end Libws.Lives
