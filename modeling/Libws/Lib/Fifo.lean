import Mathlib.Data.List.Basic

/-!
# First in, first out

What is put into a queue is taken out of it in the same order, whatever lies between the two ends.

* `Passes` — something is put at one end of a queue, and something is taken at the other;
* `Passes.chain` — what one queue gives goes into the next: both together are a queue;
* `Passes.history` — a whole history from its steps.
-/

set_option autoImplicit false

namespace Libws.Fifo

variable {α : Type}

/-- `put` comes in at the end of `queue`, `taken` goes out at its start, and `next` is left. -/
def Passes (queue put taken next : List α) : Prop := queue ++ put = taken ++ next

variable {queue put taken next queue' put' taken' next' moved all before : List α}

theorem Passes.nothing (queue : List α) : Passes queue [] [] queue := by
  simp [Passes]

theorem Passes.putAll (queue put : List α) : Passes queue put [] (queue ++ put) := by
  simp [Passes]

theorem Passes.takeAll (taken next : List α) : Passes (taken ++ next) [] taken next := by
  simp [Passes]

/-- What is moved from one queue to the next stays between their ends. -/
theorem Passes.chain (first : Passes queue put moved next) (second : Passes queue' moved taken next') :
    Passes (queue' ++ queue) put taken (next' ++ next) := by
  unfold Passes at first second ⊢
  calc queue' ++ queue ++ put
      = queue' ++ moved ++ next := by rw [List.append_assoc, first, List.append_assoc]
    _ = taken ++ (next' ++ next) := by rw [second, List.append_assoc]

/-- What went through so far, and one step more. -/
theorem Passes.history (step : Passes queue put taken next) (h : before ++ queue = all) :
    before ++ taken ++ next = all ++ put := by
  unfold Passes at step
  rw [← h, List.append_assoc, ← step, List.append_assoc]

end Libws.Fifo
