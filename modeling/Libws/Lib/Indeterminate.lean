import Mathlib.Data.List.Forall2
import Libws.Lib.Block

/-!
# Memory that may hold indeterminate bytes

A byte that was never written is none.  To copy it is defined, to use it as a value is not.  `Refines` is
the order of memories: a byte that is determined in the second one is the same in the first.

* `known_of_refines`, `read_refines`, `cString_of_refines` — what is defined on the second memory is
  defined on the first, with the same value.
* `overwrite_refines` — a write keeps the order.
-/

set_option autoImplicit false

namespace Libws.Indeterminate

open Libws.Block

abbrev Byte := Option UInt8

/-- The bytes as a value. -/
def known : List Byte → Option (List UInt8)
  | [] => some []
  | none :: _ => none
  | some b :: bytes => (known bytes).map (b :: ·)

/-- The bytes in front of the first NUL, as the functions for C strings read them. -/
def cString : List Byte → Option (List UInt8)
  | [] => none
  | none :: _ => none
  | some b :: bytes => if b = 0 then some [] else (cString bytes).map (b :: ·)

def Refines : List Byte → List Byte → Prop := List.Forall₂ fun b fresh => fresh = none ∨ b = fresh

theorem Refines.refl (bytes : List Byte) : Refines bytes bytes := List.forall₂_same.mpr fun _ _ => .inr rfl

theorem Refines.length_eq {bytes fresh : List Byte} (h : Refines bytes fresh) : bytes.length = fresh.length :=
  List.Forall₂.length_eq h

theorem refines_replicate_none (bytes : List Byte) {n : Nat} (h : bytes.length = n) :
    Refines bytes (List.replicate n none) := by
  subst h
  induction bytes with
  | nil => exact .nil
  | cons b bytes ih => exact .cons (.inl rfl) ih

theorem known_of_refines :
    ∀ {bytes fresh : List Byte} {xs : List UInt8}, Refines bytes fresh → known fresh = some xs →
      known bytes = some xs
  | [], [], _, _, hknown => hknown
  | _ :: _, none :: _, _, _, hknown => by cases hknown
  | b :: bytes, some c :: fresh, _, .cons hb hrest, hknown => by
    obtain rfl := hb.resolve_left (by simp)
    obtain ⟨ys, hys, rfl⟩ := Option.map_eq_some_iff.mp hknown
    rw [known, known_of_refines hrest hys, Option.map_some]

theorem cString_of_refines :
    ∀ {bytes fresh : List Byte} {xs : List UInt8}, Refines bytes fresh → cString fresh = some xs →
      cString bytes = some xs
  | [], [], _, _, hstring => hstring
  | _ :: _, none :: _, _, _, hstring => by cases hstring
  | b :: bytes, some c :: fresh, _, .cons hb hrest, hstring => by
    obtain rfl := hb.resolve_left (by simp)
    rw [cString] at hstring ⊢
    split at hstring
    · rwa [if_pos ‹_›]
    · obtain ⟨ys, hys, rfl⟩ := Option.map_eq_some_iff.mp hstring
      rw [if_neg ‹_›, cString_of_refines hrest hys, Option.map_some]

theorem read_refines {bytes fresh xs : List Byte} {off len : Nat} (h : Refines bytes fresh)
    (hread : Block.read fresh off len = some xs) : ∃ ys, Block.read bytes off len = some ys ∧ Refines ys xs := by
  have hlength := h.length_eq
  unfold Block.read at hread ⊢
  split at hread
  · cases hread
    exact ⟨_, if_pos (by omega), List.forall₂_take len (List.forall₂_drop off h)⟩
  · cases hread

theorem overwrite_refines {bytes fresh : List Byte} (h : Refines bytes fresh) (xs : List Byte) :
    Refines (overwrite bytes xs) (overwrite fresh xs) :=
  List.rel_append (Refines.refl xs) (List.forall₂_drop xs.length h)

/-- Bytes that were written. -/
theorem known_map_some (xs : List UInt8) : known (xs.map some) = some xs := by
  induction xs with
  | nil => rfl
  | cons x xs ih => rw [List.map_cons, known, ih, Option.map_some]

theorem known_replicate_none {n : Nat} (h : 0 < n) : known (List.replicate n none) = none := by
  cases n with
  | zero => exact absurd h (Nat.lt_irrefl 0)
  | succ n => rfl

end Libws.Indeterminate
