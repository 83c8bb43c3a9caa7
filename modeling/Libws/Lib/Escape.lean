/-!
# Escape sequences

A text in which the symbol `mark` announces that the two symbols behind it stand for one.

* `Piece` — a symbol that stands for itself, or a mark with its two symbols;
* `text` — what a list of pieces is written as; `cut` — the pieces of a text;
* `cut_text`, `text_of_cut` — every text has at most one list of pieces, and `cut` finds it.
-/

set_option autoImplicit false

namespace Libws.Escape

variable {α : Type}

inductive Piece (mark : α) where
  | plain (a : α) (h : a ≠ mark)
  | escape (high low : α)

variable {mark : α}

def Piece.text : Piece mark → List α
  | .plain a _ => [a]
  | .escape high low => [mark, high, low]

def text (pieces : List (Piece mark)) : List α := pieces.flatMap Piece.text

theorem text_cons (piece : Piece mark) (pieces : List (Piece mark)) :
    text (piece :: pieces) = piece.text ++ text pieces :=
  List.flatMap_cons

variable [DecidableEq α]

/-- The pieces of a text; `none` if a mark has fewer than two symbols behind it. -/
def cut (mark : α) : List α → Option (List (Piece mark))
  | [] => some []
  | a :: s =>
    if h : a = mark then
      match s with
      | high :: low :: s => (cut mark s).map (.escape high low :: ·)
      | [_] | [] => none
    else (cut mark s).map (.plain a h :: ·)

theorem cut_plain {a : α} (h : a ≠ mark) (s : List α) : cut mark (a :: s) = (cut mark s).map (.plain a h :: ·) := by
  rw [cut.eq_def]
  exact dif_neg h

theorem cut_escape (high low : α) (s : List α) :
    cut mark (mark :: high :: low :: s) = (cut mark s).map (.escape high low :: ·) := by
  rw [cut, dif_pos rfl]

/-- The text of some pieces is cut into them. -/
theorem cut_text (pieces : List (Piece mark)) : cut mark (text pieces) = some pieces := by
  induction pieces with
  | nil => rfl
  | cons piece pieces ih =>
    rw [text_cons]
    cases piece with
    | plain a h => rw [Piece.text, List.singleton_append, cut_plain h, ih, Option.map_some]
    | escape high low =>
      rw [Piece.text, List.cons_append, List.cons_append, List.singleton_append, cut_escape, ih, Option.map_some]

/-- The pieces of a text are written as the text. -/
theorem text_of_cut {s : List α} {pieces : List (Piece mark)} (h : cut mark s = some pieces) : text pieces = s := by
  induction s using cut.induct mark generalizing pieces with
  | case1 =>
    cases h
    rfl
  | case2 high low s ih =>
    rw [cut_escape] at h
    obtain ⟨rest, hrest, rfl⟩ := Option.map_eq_some_iff.mp h
    rw [text_cons, ih hrest]
    rfl
  | case3 a =>
    rw [cut, dif_pos rfl] at h
    cases h
  | case4 =>
    rw [cut, dif_pos rfl] at h
    cases h
  | case5 a s hne ih =>
    rw [cut_plain hne] at h
    obtain ⟨rest, hrest, rfl⟩ := Option.map_eq_some_iff.mp h
    rw [text_cons, ih hrest]
    rfl

end Libws.Escape
