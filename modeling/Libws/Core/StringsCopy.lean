import Libws.Core.Strings

/-!
# `ws::core::String::copy`

Model of `copy` of `include/ws/core/String.h` and `wsCore/src/String.cpp`.  The destination is the cells of its
block; a write outside of them has no defined outcome.

`copy_iff` — the destination is a C string afterwards unless the source is empty and the destination did not
start with a NUL before.
-/

set_option autoImplicit false

namespace Libws.Core.Strings

open Libws.Block

/-- `memcpy(dest, src.c_str(), length)`, and the NUL behind it. -/
def copyFirst (dest src : List UInt8) (length : Nat) (asString : Bool) : Option (List UInt8) :=
  (write dest 0 (src.take length)).bind fun dest => if asString then write dest length [0] else some dest

/-- `copy`, with the destination after it and the result. -/
def copy (dest : List UInt8) (size : Nat) (src : List UInt8) (asString : Bool) : Option (List UInt8 × Bool) :=
  let srcLen := src.length
  if srcLen = 0 then some (dest, true)
  else if size = 0 then some (dest, false)
  else
    let size := if asString then size - 1 else size
    if size ≥ srcLen then (copyFirst dest src srcLen asString).map (·, true)
    else (copyFirst dest src size asString).map (·, false)

/-- The destination holds the start of the source and a NUL, the cells behind its size are left, and the result
tells whether the source was copied whole. -/
structure Copied (dest : List UInt8) (size : Nat) (src dest' : List UInt8) (result : Bool) : Prop where
  content : dest'.take (min (size - 1) src.length + 1) = src.take (min (size - 1) src.length) ++ [0]
  outside : dest'.drop size = dest.drop size
  whole : result = true ↔ src.length ≤ size - 1

/-- What the first cells of a source and the NUL behind them leave. -/
theorem copyFirst_spec {dest src : List UInt8} {length size : Nat} (hsrc : length ≤ src.length)
    (hsize : length < size) (hdest : size ≤ dest.length) :
    ∃ dest', copyFirst dest src length true = some dest' ∧ dest'.take (length + 1) = src.take length ++ [0] ∧
      dest'.drop size = dest.drop size := by
  have htake : (src.take length).length = length := by rw [List.length_take]; omega
  have hwrite := write_front dest (src.take length) (by omega)
  have hnul := write_behind dest (src.take length) [0] (by simp only [htake, List.length_singleton]; omega)
  rw [htake] at hnul
  refine ⟨overwrite dest (src.take length ++ [0]), ?_, ?_, ?_⟩
  · rw [copyFirst, hwrite, Option.bind_some, if_pos rfl, hnul]
  · rw [overwrite, List.take_append_of_le_length (by simp [htake]), List.take_of_length_le (by simp [htake])]
  · rw [overwrite, List.drop_append, List.drop_of_length_le (by simp [htake]; omega),
      List.nil_append, List.drop_drop]
    congr 1
    simp [htake]
    omega

/-- A string is copied as far as there is room. -/
theorem copy_of_ne_nil {dest src : List UInt8} {size : Nat} (hsrc : src ≠ []) (hpos : 1 ≤ size)
    (hsize : size ≤ dest.length) :
    ∃ dest' result, copy dest size src true = some (dest', result) ∧ Copied dest size src dest' result := by
  have hlength : src.length ≠ 0 := fun h => hsrc (List.eq_nil_of_length_eq_zero h)
  unfold copy
  simp only [if_neg hlength, if_neg (show size ≠ 0 by omega), if_true]
  by_cases hroom : size - 1 ≥ src.length
  · obtain ⟨dest', hcopy, hcontent, houtside⟩ := copyFirst_spec (Nat.le_refl src.length) (by omega) hsize
    rw [if_pos hroom, hcopy]
    refine ⟨dest', true, rfl, ?_, houtside, by simpa using hroom⟩
    rwa [Nat.min_eq_right hroom]
  · obtain ⟨dest', hcopy, hcontent, houtside⟩ :=
      copyFirst_spec (show size - 1 ≤ src.length by omega) (by omega) hsize
    rw [if_neg hroom, hcopy]
    refine ⟨dest', false, rfl, ?_, houtside, by simpa using hroom⟩
    rwa [Nat.min_eq_left (by omega)]

/-- The content of a block that holds a copy, as a C string. -/
theorem cString_of_take :
    ∀ {cells text : List UInt8}, cells.take (text.length + 1) = text ++ [0] → 0 ∉ text → cString cells = some text
  | [], [], h, _ => by cases h
  | [], _ :: _, h, _ => by cases h
  | c :: cells, [], h, _ => by
    rw [List.length_nil, Nat.zero_add, List.take_succ_cons, List.take_zero, List.nil_append] at h
    rw [cString, if_pos (List.cons.inj h).1]
  | c :: cells, t :: text, h, hnul => by
    rw [List.length_cons, List.take_succ_cons, List.cons_append] at h
    obtain ⟨rfl, hrest⟩ := List.cons.inj h
    rw [List.mem_cons, not_or] at hnul
    rw [cString, if_neg (Ne.symm hnul.1), cString_of_take hrest hnul.2, Option.map_some]

/-- A copy of a string without NUL is a C string. -/
theorem Copied.cString {dest src dest' : List UInt8} {size : Nat} {result : Bool}
    (h : Copied dest size src dest' result)
    (hsrc : 0 ∉ src) : Strings.cString dest' = some (src.take (min (size - 1) src.length)) := by
  refine cString_of_take ?_ fun hmem => hsrc (List.mem_of_mem_take hmem)
  have hlength : (src.take (min (size - 1) src.length)).length = min (size - 1) src.length := by
    rw [List.length_take]
    omega
  rw [hlength, h.content]

/-- **Copies.**  Into a destination of at least one cell, a string is copied as far as there is room and ended
by a NUL if and only if it is not empty, or the destination starts with a NUL already. -/
theorem copy_iff {dest src : List UInt8} {size : Nat} (hpos : 1 ≤ size) (hsize : size ≤ dest.length) :
    (∃ dest' result, copy dest size src true = some (dest', result) ∧ Copied dest size src dest' result) ↔
      src ≠ [] ∨ dest.head? = some 0 := by
  by_cases hsrc : src = []
  · subst hsrc
    simp only [ne_eq, not_true_eq_false, false_or]
    constructor
    · rintro ⟨dest', result, hcopy, hcopied⟩
      cases hcopy
      have hcontent := hcopied.content
      simp only [List.length_nil, Nat.min_zero, Nat.zero_add, List.take_zero, List.nil_append] at hcontent
      rw [List.head?_eq_getElem?, ← List.getElem?_take_of_lt (Nat.lt_add_one 0), hcontent]
      rfl
    · intro hhead
      refine ⟨dest, true, rfl, ?_, rfl, by simp⟩
      obtain ⟨cells, rfl⟩ := List.head?_eq_some_iff.mp hhead
      simp
  · exact ⟨fun _ => .inl hsrc, fun _ => copy_of_ne_nil hsrc hpos hsize⟩

/-- "abc" into four cells. -/
theorem copy_iff_abc :
    ∃ dest' result, copy [1, 2, 3, 4] 4 [0x61, 0x62, 0x63] true = some (dest', result) ∧
      Copied [1, 2, 3, 4] 4 [0x61, 0x62, 0x63] dest' result :=
  (copy_iff (by decide) (by decide)).mpr (.inl (by decide))

/-- The empty string leaves what the destination held. -/
theorem empty_not_copied :
    ¬ ∀ (dest src : List UInt8) (size : Nat), 1 ≤ size → size ≤ dest.length → 0 ∉ src →
      ∃ dest' result, copy dest size src true = some (dest', result) ∧ Copied dest size src dest' result := by
  intro hall
  obtain ⟨dest', result, hcopy, hcopied⟩ := hall [0x61, 0] [] 2 (by decide) (by decide) (by decide)
  cases hcopy
  exact absurd hcopied.content (by decide)

end Libws.Core.Strings
