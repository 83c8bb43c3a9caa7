import Mathlib.Data.List.DropRight

/-!
# `ws::core::String`: `ltrim`, `rtrim` and `trim`

Model of the three functions of `include/ws/core/String.h` and `wsCore/src/String.cpp`.  A `string_view` is the
list of its characters; none is `npos`.

`trimsExactly_iff` — blanks are removed from both ends, but from the right end only where something else stays.
-/

set_option autoImplicit false

namespace Libws.Core.Strings

/-- The characters of `" \n\r\t\f\v"`. -/
def isBlank (c : UInt8) : Bool := c ∈ [0x20, 0x0A, 0x0D, 0x09, 0x0C, 0x0B]

/-- `sv.find_first_not_of(" \n\r\t\f\v")`. -/
def find_first_not_of (sv : List UInt8) : Option Nat := sv.findIdx? fun c => !isBlank c

/-- `sv.find_last_not_of(" \n\r\t\f\v")`. -/
def find_last_not_of (sv : List UInt8) : Option Nat :=
  (sv.reverse.findIdx? fun c => !isBlank c).map fun i => sv.length - 1 - i

/-- `npos` is not less than any size. -/
def ltrim (sv : List UInt8) : List UInt8 :=
  match find_first_not_of sv with
  | some pos => sv.drop (min pos sv.length)
  | none => sv.drop sv.length

def rtrim (sv : List UInt8) : List UInt8 :=
  match find_last_not_of sv with
  | some last => sv.take (sv.length - (sv.length - last - 1))
  | none => sv

def trim (sv : List UInt8) : List UInt8 := ltrim (rtrim sv)

/-- The rest of a string without its longest prefix of blanks. -/
def TrimsLeft (sv rest : List UInt8) : Prop :=
  ∃ blanks, sv = blanks ++ rest ∧ (∀ c ∈ blanks, isBlank c = true) ∧ ∀ c ∈ rest.head?, isBlank c = false

/-- The rest of a string without its longest suffix of blanks. -/
def TrimsRight (sv rest : List UInt8) : Prop :=
  ∃ blanks, sv = rest ++ blanks ∧ (∀ c ∈ blanks, isBlank c = true) ∧ ∀ c ∈ rest.getLast?, isBlank c = false

structure TrimsExactly (sv : List UInt8) : Prop where
  ltrim : TrimsLeft sv (ltrim sv)
  rtrim : TrimsRight sv (rtrim sv)
  ltrim_ltrim : Strings.ltrim (Strings.ltrim sv) = Strings.ltrim sv
  rtrim_rtrim : Strings.rtrim (Strings.rtrim sv) = Strings.rtrim sv
  commute : Strings.ltrim (Strings.rtrim sv) = Strings.rtrim (Strings.ltrim sv)
  first : ∀ c ∈ (trim sv).head?, isBlank c = false
  last : ∀ c ∈ (trim sv).getLast?, isBlank c = false

/-- A string with something else than blanks. -/
abbrev HasOther (sv : List UInt8) : Prop := ∃ c ∈ sv, isBlank c = false

/-! ## The searches -/

theorem ltrim_eq (sv : List UInt8) : ltrim sv = sv.dropWhile isBlank := by
  rw [ltrim, find_first_not_of, List.dropWhile_eq_drop_findIdx_not]
  cases hfind : sv.findIdx? fun c => !isBlank c with
  | none => rw [List.findIdx?_eq_none_iff_findIdx_eq.mp hfind]
  | some pos =>
    obtain ⟨hlt, hpos⟩ := List.findIdx?_eq_some_iff_findIdx_eq.mp hfind
    simp only [hpos, Nat.min_eq_left (Nat.le_of_lt hlt)]

/-- Where there is something else than blanks, the search from the right finds it. -/
theorem rtrim_eq {sv : List UInt8} (h : HasOther sv) : rtrim sv = sv.rdropWhile isBlank := by
  rw [rtrim, find_last_not_of, List.rdropWhile, List.dropWhile_eq_drop_findIdx_not]
  cases hfind : sv.reverse.findIdx? fun c => !isBlank c with
  | none =>
    obtain ⟨c, hc, hblank⟩ := h
    have hall := List.findIdx?_eq_none_iff.mp hfind c (List.mem_reverse.mpr hc)
    rw [hblank] at hall
    cases hall
  | some i =>
    obtain ⟨hlt, hi⟩ := List.findIdx?_eq_some_iff_findIdx_eq.mp hfind
    rw [List.length_reverse] at hlt
    simp only [Option.map_some, hi]
    rw [List.drop_reverse, List.reverse_reverse]
    congr 1
    omega

/-- Blanks alone are left. -/
theorem rtrim_blanks {sv : List UInt8} (h : ∀ c ∈ sv, isBlank c = true) : rtrim sv = sv := by
  have hfind : (sv.reverse.findIdx? fun c => !isBlank c) = none :=
    List.findIdx?_eq_none_iff.mpr fun c hc => by rw [h c (List.mem_reverse.mp hc)]; rfl
  rw [rtrim, find_last_not_of, hfind]
  rfl

/-! ## Trimming lists -/

theorem trimsLeft_dropWhile (sv : List UInt8) : TrimsLeft sv (sv.dropWhile isBlank) := by
  refine ⟨sv.takeWhile isBlank, List.takeWhile_append_dropWhile.symm,
    fun c hc => List.mem_takeWhile_imp hc, fun c hc => ?_⟩
  have hne : sv.dropWhile isBlank ≠ [] := List.ne_nil_of_mem (List.mem_of_mem_head? hc)
  have hhead := List.head_dropWhile_not isBlank hne
  rw [Option.mem_def, List.head?_eq_some_head hne, Option.some.injEq] at hc
  rw [← hc, hhead]

theorem trimsRight_rdropWhile (sv : List UInt8) : TrimsRight sv (sv.rdropWhile isBlank) := by
  refine ⟨sv.rtakeWhile isBlank, (List.rdropWhile_append_rtakeWhile ..).symm, fun c hc => List.mem_rtakeWhile_imp hc,
    fun c hc => ?_⟩
  have hne : sv.rdropWhile isBlank ≠ [] := List.ne_nil_of_mem (List.mem_of_mem_getLast? hc)
  have hlast := List.rdropWhile_last_not isBlank sv hne
  rw [Option.mem_def, List.getLast?_eq_some_getLast hne, Option.some.injEq] at hc
  rw [hc] at hlast
  simpa using hlast

/-- It stays where blanks are removed. -/
theorem hasOther_of_trimsLeft {sv rest : List UInt8} (h : TrimsLeft sv rest) (hother : HasOther sv) :
    HasOther rest := by
  obtain ⟨blanks, rfl, hblanks, -⟩ := h
  obtain ⟨c, hc, hblank⟩ := hother
  refine ⟨c, (List.mem_append.mp hc).resolve_left fun hin => ?_, hblank⟩
  rw [hblanks c hin] at hblank
  cases hblank

theorem hasOther_of_trimsRight {sv rest : List UInt8} (h : TrimsRight sv rest) (hother : HasOther sv) :
    HasOther rest := by
  obtain ⟨blanks, rfl, hblanks, -⟩ := h
  obtain ⟨c, hc, hblank⟩ := hother
  refine ⟨c, (List.mem_append.mp hc).resolve_right fun hin => ?_, hblank⟩
  rw [hblanks c hin] at hblank
  cases hblank

/-- A string that starts with something else. -/
theorem dropWhile_of_first {sv : List UInt8} (h : ∀ c ∈ sv.head?, isBlank c = false) :
    sv.dropWhile isBlank = sv := by
  cases sv with
  | nil => rfl
  | cons c sv =>
    have hc := h c rfl
    exact List.dropWhile_cons_of_neg (by rw [hc]; decide)

/-- Trimming at the right end reaches into the second part only, if that is not all blank. -/
theorem rdropWhile_append {xs ys : List UInt8} (h : HasOther ys) :
    (xs ++ ys).rdropWhile isBlank = xs ++ ys.rdropWhile isBlank := by
  obtain ⟨c, hc, hblank⟩ := h
  have hne : (ys.reverse.dropWhile isBlank).isEmpty = false := by
    rw [Bool.eq_false_iff, ne_eq, List.isEmpty_iff, List.dropWhile_eq_nil_iff]
    intro hall
    have htrue := hall c (List.mem_reverse.mpr hc)
    rw [hblank] at htrue
    cases htrue
  simp [List.rdropWhile, List.dropWhile_append, hne]

/-- The two ends do not meet. -/
theorem dropWhile_rdropWhile {sv : List UInt8} (h : HasOther sv) :
    (sv.rdropWhile isBlank).dropWhile isBlank = (sv.dropWhile isBlank).rdropWhile isBlank := by
  have htrims := trimsLeft_dropWhile sv
  have hother := hasOther_of_trimsLeft htrims h
  obtain ⟨blanks, hsv, hblanks, hfirst⟩ := htrims
  set rest := sv.dropWhile isBlank
  obtain ⟨_, hsplit, -, -⟩ := trimsRight_rdropWhile rest
  -- what is left of the rest starts with its first character
  have hstart : ∀ c ∈ (rest.rdropWhile isBlank).head?, isBlank c = false := by
    intro c hc
    refine hfirst c ?_
    rw [hsplit, List.head?_append, Option.mem_def.mp hc]
    rfl
  rw [hsv, rdropWhile_append hother, List.dropWhile_append, List.dropWhile_eq_nil_iff.mpr hblanks]
  exact dropWhile_of_first hstart

/-! ## The functions -/

theorem trimsExactly_of_hasOther {sv : List UInt8} (h : HasOther sv) : TrimsExactly sv := by
  have hleft := trimsLeft_dropWhile sv
  have hright := trimsRight_rdropWhile sv
  have hcommute : ltrim (rtrim sv) = rtrim (ltrim sv) := by
    rw [rtrim_eq h, ltrim_eq, ltrim_eq, rtrim_eq (hasOther_of_trimsLeft hleft h), dropWhile_rdropWhile h]
  refine ⟨?_, ?_, ?_, ?_, hcommute, ?_, ?_⟩
  · rwa [ltrim_eq]
  · rwa [rtrim_eq h]
  · rw [ltrim_eq, ltrim_eq, List.dropWhile_idempotent]
  · rw [rtrim_eq h, rtrim_eq (hasOther_of_trimsRight hright h), List.rdropWhile_idempotent]
  · rw [trim, ltrim_eq]
    obtain ⟨_, -, -, hfirst⟩ := trimsLeft_dropWhile (rtrim sv)
    exact hfirst
  · rw [trim, hcommute, ltrim_eq, rtrim_eq (hasOther_of_trimsLeft hleft h)]
    obtain ⟨_, -, -, hlast⟩ := trimsRight_rdropWhile (sv.dropWhile isBlank)
    exact hlast

theorem trimsExactly_nil : TrimsExactly [] :=
  ⟨⟨[], rfl, by simp, by simp [ltrim, find_first_not_of]⟩, ⟨[], rfl, by simp, by simp [rtrim, find_last_not_of]⟩, rfl, rfl,
    rfl, by simp [trim, ltrim, rtrim, find_first_not_of, find_last_not_of],
    by simp [trim, ltrim, rtrim, find_first_not_of, find_last_not_of]⟩

/-- **Trimming** removes exactly the blanks at the ends, in either order, if and only if the string is empty or
holds another character. -/
theorem trimsExactly_iff (sv : List UInt8) : TrimsExactly sv ↔ sv = [] ∨ ∃ c ∈ sv, isBlank c = false := by
  constructor
  · intro h
    by_contra hnot
    rw [not_or, not_exists] at hnot
    obtain ⟨hne, hall⟩ := hnot
    have hblank : ∀ c ∈ sv, isBlank c = true := fun c hc => by
      by_contra hc'
      exact hall c ⟨hc, Bool.eq_false_iff.mpr hc'⟩
    obtain ⟨_, -, -, hlast⟩ := h.rtrim
    rw [rtrim_blanks hblank] at hlast
    have hfalse := hlast _ (List.getLast?_eq_some_getLast hne)
    rw [hblank _ (List.getLast_mem hne)] at hfalse
    cases hfalse
  · rintro (rfl | hother)
    · exact trimsExactly_nil
    · exact trimsExactly_of_hasOther hother

/-- One blank stays. -/
theorem blank_not_trimmed : ¬ ∀ sv : List UInt8, TrimsExactly sv := by
  intro hall
  obtain ⟨_, -, -, hlast⟩ := (hall [0x20]).rtrim
  exact absurd (hlast 0x20 rfl) (by decide)

end Libws.Core.Strings
