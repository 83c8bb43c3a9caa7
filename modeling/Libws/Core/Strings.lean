import Libws.Lib.Block
import Libws.Lib.Tokens

/-!
# `ws::core::String`: `split` and `join`

Model of the templates of `include/ws/core/String.h`.  A `const char*` is the list of the cells from
the character that it points to; a `char*` inside the block is an offset.  Reading past the end has
no defined outcome.

* `strncmp_eq` — `strncmp` at the separator is the test for a prefix;
* `splitFrom_spec`, `splitInPlaceFrom_spec` — both loops cut where `Tokens.cut` does;
* `split_join` — the tokens of both, joined and counted;
* `splitsAll_iff` — with which separators both return.
-/

set_option autoImplicit false

namespace Libws.Core.Strings

/-! ## C strings -/

/-- The string that a `const char*` points to. -/
def cString : List UInt8 → Option (List UInt8)
  | [] => none
  | c :: cells => if c = 0 then some [] else (cString cells).map (c :: ·)

def strlen (cells : List UInt8) : Option Nat := (cString cells).map List.length

/-- `strncmp(a, b, n) == 0`. -/
def strncmp : (a b : List UInt8) → (n : Nat) → Option Bool
  | _, _, 0 => some true
  | a :: as, b :: bs, n + 1 => if a ≠ b then some false else if a = 0 then some true else strncmp as bs n
  | _, _, _ => none

/-! ## Model -/

/-- The loop of the `split` that copies, and the `push_back` behind it.  `strLen` does not wrap: it is
at least `sepLength` where it is lowered. -/
def splitFrom (cells seperator : List UInt8) (sepLength : Nat) : (fuel str strLen ptr : Nat) →
    (output : List (List UInt8)) → Option (List (List UInt8))
  | 0, _, _, _, _ => none
  | fuel + 1, str, strLen, ptr, output => do
    let c ← cells[str]?
    if c ≠ 0 ∧ strLen ≥ sepLength then
      if ← strncmp (cells.drop str) seperator sepLength then
        let token ← Block.read cells ptr (str - ptr)
        splitFrom cells seperator sepLength fuel (str + sepLength) (strLen - sepLength) (str + sepLength)
          (output ++ [token])
      else splitFrom cells seperator sepLength fuel (str + 1) (strLen - 1) ptr output
    else
      let token ← cString (cells.drop ptr)
      some (output ++ [token])

/-- `split(const char*, …)`.  A separator that is not empty lowers `strLen` in each iteration; with an
empty one the loop does not end. -/
def split (str seperator : List UInt8) (output : List (List UInt8)) : Option (List (List UInt8)) := do
  let strLen ← strlen str
  if strLen = 0 then some output
  else
    let sepLength ← strlen seperator
    splitFrom str seperator sepLength (strLen + 1) 0 strLen 0 output

/-- The loop of the `split` that changes `str`. -/
def splitInPlaceFrom (seperator : List UInt8) (sepLength : Nat) : (fuel : Nat) → (cells : List UInt8) →
    (str strLen : Nat) → (output : List Nat) → Option (List UInt8 × List Nat)
  | 0, _, _, _, _ => none
  | fuel + 1, cells, str, strLen, output => do
    let c ← cells[str]?
    if c ≠ 0 ∧ strLen ≥ sepLength then
      if ← strncmp (cells.drop str) seperator sepLength then
        let cells ← Block.write cells str [0]
        splitInPlaceFrom seperator sepLength fuel cells (str + sepLength) (strLen - sepLength)
          (output ++ [str + sepLength])
      else splitInPlaceFrom seperator sepLength fuel cells (str + 1) (strLen - 1) output
    else some (cells, output)

/-- `split(char*, …)`. -/
def splitInPlace (str seperator : List UInt8) (output : List Nat) : Option (List UInt8 × List Nat) := do
  let strLen ← strlen str
  if strLen = 0 then some (str, output)
  else
    let sepLength ← strlen seperator
    splitInPlaceFrom seperator sepLength (strLen + 1) str 0 strLen (output ++ [0])

/-- `join` of strings. -/
def join (input : List (List UInt8)) (glue : List UInt8) : Option (List UInt8) :=
  match input with
  | [] => some []
  | first :: rest => (cString glue).map fun glue => rest.foldl (fun output str => output ++ glue ++ str) first

/-! ## Strings in a block -/

variable {s sep rest more : List UInt8}

theorem cString_append (h : 0 ∉ s) (rest : List UInt8) : cString (s ++ 0 :: rest) = some s := by
  induction s with
  | nil => simp [cString]
  | cons a s ih =>
    simp only [List.mem_cons, not_or] at h
    simp [cString, Ne.symm h.1, ih h.2]

theorem strlen_append (h : 0 ∉ s) (rest : List UInt8) : strlen (s ++ 0 :: rest) = some s.length := by
  simp [strlen, cString_append h]

theorem strncmp_eq (hsep : 0 ∉ sep) : ∀ {s : List UInt8}, sep.length ≤ s.length →
    strncmp (s ++ rest) (sep ++ more) sep.length = some (decide (sep <+: s)) := by
  induction sep with
  | nil => simp [strncmp]
  | cons b sep ih =>
    intro s hle
    simp only [List.mem_cons, not_or] at hsep
    cases s with
    | nil => simp at hle
    | cons a s =>
      by_cases hab : a = b
      · subst hab
        simp [strncmp, Ne.symm hsep.1, ih hsep.2 (Nat.le_of_succ_le_succ hle), List.cons_prefix_cons]
      · simp [strncmp, hab, List.cons_prefix_cons, Ne.symm hab]

/-- The cell behind the front. -/
theorem cell_front (front s rest : List UInt8) : (front ++ s ++ 0 :: rest)[front.length]? = some (s.headD 0) := by
  rw [List.append_assoc, List.getElem?_append_right (Nat.le_refl _), Nat.sub_self]
  cases s <;> rfl

/-- Where a loop ends, what is left is shorter than the separator. -/
theorem shorter_of_end (hpos : 0 < sep.length) (hs : 0 ∉ s) (hgo : ¬ (s.headD 0 ≠ 0 ∧ s.length ≥ sep.length)) :
    s.length < sep.length := by
  cases s with
  | nil => exact hpos
  | cons a s =>
    have ha : a ≠ 0 := fun ha => hs (by simp [ha])
    exact Nat.lt_of_not_le fun hle => hgo ⟨ha, hle⟩

/-! ## The loops -/

section

variable (hne : sep ≠ []) (hsep : 0 ∉ sep)
include hne hsep

/-- **The loop of the `split` that copies.** -/
theorem splitFrom_spec (rest more : List UInt8) (fuel : Nat) : ∀ (front carry s : List UInt8) (output : List (List UInt8)),
    0 ∉ carry → 0 ∉ s → s.length < fuel →
    splitFrom (front ++ carry ++ s ++ 0 :: rest) (sep ++ 0 :: more) sep.length fuel (front ++ carry).length s.length
      front.length output = some (output ++ Tokens.cut sep carry s) := by
  induction fuel with
  | zero => exact fun _ _ _ _ _ _ hfuel => absurd hfuel (Nat.not_lt_zero _)
  | succ fuel ih =>
    intro front carry s output hcarry hs hfuel
    have hpos := List.length_pos_iff.mpr hne
    have hcell := cell_front (front ++ carry) s rest
    have hlast : cString ((front ++ carry ++ s ++ 0 :: rest).drop front.length) = some (carry ++ s) := by
      rw [List.append_assoc, List.append_assoc, List.drop_left, ← List.append_assoc]
      exact cString_append (by simp [hcarry, hs]) rest
    have hdrop : (front ++ carry ++ s ++ 0 :: rest).drop (front ++ carry).length = s ++ 0 :: rest := by
      rw [List.append_assoc, List.drop_left]
    rw [splitFrom, hcell, Option.bind_eq_bind, Option.bind_some]
    by_cases hgo : s.headD 0 ≠ 0 ∧ s.length ≥ sep.length
    · rw [if_pos hgo, hdrop, strncmp_eq hsep hgo.2, Option.bind_eq_bind, Option.bind_some]
      by_cases hoccurs : sep <+: s
      · obtain ⟨s', rfl⟩ := hoccurs
        have hread : Block.read (front ++ carry ++ (sep ++ s') ++ 0 :: rest) front.length
            ((front ++ carry).length - front.length) = some carry := by
          rw [Block.read_of_le (by simp), List.append_assoc, List.append_assoc, List.drop_left]
          simp
        have hs' : 0 ∉ s' := fun hmem => hs (List.mem_append_right _ hmem)
        have hrun := ih (front ++ carry ++ sep) [] s' (output ++ [carry]) nofun hs'
          (by rw [List.length_append] at hfuel; omega)
        rw [if_pos (decide_eq_true ⟨s', rfl⟩), hread, Option.bind_eq_bind, Option.bind_some,
          Tokens.cut_of_occurrence hne _ ⟨s', rfl⟩, List.drop_left]
        simpa [Nat.add_assoc] using hrun
      · cases s with
        | nil => exact absurd rfl hgo.1
        | cons a s =>
          have ha : a ≠ 0 := hgo.1
          have hs' : 0 ∉ s := fun hmem => hs (List.mem_cons_of_mem _ hmem)
          have hcarry' : 0 ∉ carry ++ [a] := by simp [hcarry, Ne.symm ha]
          have hrun := ih front (carry ++ [a]) s output hcarry' hs' (Nat.lt_of_succ_lt_succ hfuel)
          rw [if_neg (by simp [hoccurs]), Tokens.cut_of_skip _ hoccurs]
          simpa [Nat.add_assoc] using hrun
    · rw [if_neg hgo, hlast, Option.bind_eq_bind, Option.bind_some, Tokens.cut_of_short]
      exact shorter_of_end hpos hs hgo

/-- What the tokens at `positions` read as, C strings of the cells. -/
def readTokens (cells : List UInt8) (positions : List Nat) : List (Option (List UInt8)) :=
  positions.map fun p => cString (cells.drop p)

/-- **The loop of the `split` that changes `str`.**  The token that has begun reads as the first one. -/
theorem splitInPlaceFrom_spec (rest more : List UInt8) (fuel : Nat) : ∀ (front s : List UInt8) (output : List Nat),
    0 ∉ s → s.length < fuel → ∃ cells positions,
      splitInPlaceFrom (sep ++ 0 :: more) sep.length fuel (front ++ s ++ 0 :: rest) front.length s.length output =
        some (front ++ cells, output ++ positions) ∧
      readTokens (front ++ cells) (front.length :: positions) = (Tokens.cut sep [] s).map some := by
  induction fuel with
  | zero => exact fun _ _ _ _ hfuel => absurd hfuel (Nat.not_lt_zero _)
  | succ fuel ih =>
    intro front s output hs hfuel
    have hpos := List.length_pos_iff.mpr hne
    have hcell := cell_front front s rest
    have hdrop : (front ++ s ++ 0 :: rest).drop front.length = s ++ 0 :: rest := by
      rw [List.append_assoc, List.drop_left]
    rw [splitInPlaceFrom, hcell, Option.bind_eq_bind, Option.bind_some]
    by_cases hgo : s.headD 0 ≠ 0 ∧ s.length ≥ sep.length
    · rw [if_pos hgo, hdrop, strncmp_eq hsep hgo.2, Option.bind_eq_bind, Option.bind_some]
      by_cases hoccurs : sep <+: s
      · obtain ⟨s', rfl⟩ := hoccurs
        obtain ⟨b, sep', rfl⟩ := List.exists_cons_of_ne_nil hne
        have hwrite : Block.write (front ++ (b :: sep' ++ s') ++ 0 :: rest) front.length [0] =
            some (front ++ 0 :: sep' ++ s' ++ 0 :: rest) := by
          rw [Block.write_of_le _ _ _ (by simp)]
          simp
        have hs' : 0 ∉ s' := fun hmem => hs (List.mem_append_right _ hmem)
        obtain ⟨cells, positions, hrun, hread⟩ := ih (front ++ 0 :: sep') s'
          (output ++ [front.length + (sep'.length + 1)]) hs' (by simp at hfuel; omega)
        refine ⟨0 :: sep' ++ cells, (front.length + (sep'.length + 1)) :: positions, ?_, ?_⟩
        · rw [if_pos (decide_eq_true ⟨s', rfl⟩), hwrite, Option.bind_eq_bind, Option.bind_some]
          simpa using hrun
        · rw [Tokens.cut_of_occurrence hne _ ⟨s', rfl⟩, List.drop_left, List.map_cons, ← hread]
          simp [readTokens, cString]
      · cases s with
        | nil => exact absurd rfl hgo.1
        | cons a s =>
          have ha : a ≠ 0 := hgo.1
          have hs' : 0 ∉ s := fun hmem => hs (List.mem_cons_of_mem _ hmem)
          obtain ⟨cells, positions, hrun, hread⟩ := ih (front ++ [a]) s output hs'
            (Nat.lt_of_succ_lt_succ hfuel)
          obtain ⟨t, ts, hcut⟩ := Tokens.cut_carry sep s
          refine ⟨a :: cells, positions, ?_, ?_⟩
          · rw [if_neg (by simp [hoccurs])]
            simpa using hrun
          · rw [hcut] at hread
            rw [Tokens.cut_of_skip _ hoccurs, hcut]
            obtain ⟨hopen, hlater⟩ := List.cons.inj hread
            simp only [List.drop_left, List.nil_append] at hopen
            rw [List.append_assoc, List.singleton_append] at hlater
            refine List.cons_eq_cons.mpr ⟨?_, hlater⟩
            simp only [List.drop_left, cString, if_neg ha, hopen]
            rfl
    · refine ⟨s ++ 0 :: rest, [], ?_, ?_⟩
      · rw [if_neg hgo, List.append_nil, List.append_assoc]
      · rw [Tokens.cut_of_short]
        · simp [readTokens, cString_append hs]
        · exact shorter_of_end hpos hs hgo

/-! ## Both functions -/

/-- **The `split` that copies.** -/
theorem split_spec (hs : 0 ∉ s) (rest more : List UInt8) (output : List (List UInt8)) :
    split (s ++ 0 :: rest) (sep ++ 0 :: more) output =
      some (output ++ if s = [] then [] else Tokens.cut sep [] s) := by
  rw [split, strlen_append hs, Option.bind_eq_bind, Option.bind_some]
  by_cases hempty : s = []
  · rw [if_pos (by rw [hempty]; rfl), if_pos hempty, List.append_nil]
  · have hlen : s.length ≠ 0 := mt List.length_eq_zero_iff.mp hempty
    rw [if_neg hlen, if_neg hempty, strlen_append hsep, Option.bind_some]
    exact splitFrom_spec hne hsep rest more (s.length + 1) [] [] s output nofun hs (Nat.lt_succ_self _)

/-- **The `split` that changes `str`.** -/
theorem splitInPlace_spec (hs : 0 ∉ s) (rest more : List UInt8) (output : List Nat) :
    ∃ cells positions, splitInPlace (s ++ 0 :: rest) (sep ++ 0 :: more) output = some (cells, output ++ positions) ∧
      readTokens cells positions = (if s = [] then [] else Tokens.cut sep [] s).map some := by
  rw [splitInPlace, strlen_append hs, Option.bind_eq_bind, Option.bind_some]
  by_cases hempty : s = []
  · rw [if_pos (by rw [hempty]; rfl), if_pos hempty]
    exact ⟨_, [], by rw [List.append_nil], rfl⟩
  · have hlen : s.length ≠ 0 := mt List.length_eq_zero_iff.mp hempty
    rw [if_neg hlen, if_neg hempty, strlen_append hsep, Option.bind_some]
    obtain ⟨cells, positions, hrun, hread⟩ :=
      splitInPlaceFrom_spec hne hsep rest more (s.length + 1) [] s (output ++ [0]) hs (Nat.lt_succ_self _)
    exact ⟨cells, 0 :: positions, by simpa using hrun, hread⟩

end

theorem foldl_glue (glue : List UInt8) (input : List (List UInt8)) : ∀ output : List UInt8,
    input.foldl (fun output str => output ++ glue ++ str) output = glue.intercalate (output :: input) := by
  induction input with
  | nil => exact fun output => List.intercalate_singleton.symm
  | cons str input ih =>
    intro output
    rw [List.foldl_cons, ih, List.intercalate_cons_cons]
    cases input <;> simp

/-- **`join` is `intercalate`.** -/
theorem join_spec (hsep : 0 ∉ sep) (more : List UInt8) (input : List (List UInt8)) :
    join input (sep ++ 0 :: more) = some (sep.intercalate input) := by
  cases input with
  | nil => rfl
  | cons first input => rw [join, cString_append hsep, Option.map_some, foldl_glue]

/-- **`split` and `join`**: the tokens of a string do not contain the separator, join to the string, are one
more than the occurrences, and are what the other `split` leaves in the string. -/
theorem split_join (s sep rest more : List UInt8) (output : List (List UInt8)) (outputInPlace : List Nat)
    (hs : 0 ∉ s) (hsep : 0 ∉ sep) (hne : sep ≠ []) :
    ∃ tokens, split (s ++ 0 :: rest) (sep ++ 0 :: more) output = some (output ++ tokens) ∧
      (∀ token ∈ tokens, ¬ sep <:+: token) ∧ join tokens (sep ++ 0 :: more) = some s ∧
      tokens.length = (if s = [] then 0 else Tokens.occurrences sep s + 1) ∧
      ∃ cells positions,
        splitInPlace (s ++ 0 :: rest) (sep ++ 0 :: more) outputInPlace = some (cells, outputInPlace ++ positions) ∧
          readTokens cells positions = tokens.map some := by
  refine ⟨_, split_spec hne hsep hs rest more output, ?_, ?_, ?_,
    splitInPlace_spec hne hsep hs rest more outputInPlace⟩
  all_goals by_cases hempty : s = []
  · rw [if_pos hempty]
    exact nofun
  · rw [if_neg hempty]
    exact Tokens.not_infix_of_mem_cut hne [] s fun i hi => absurd hi (Nat.not_lt_zero i)
  · rw [if_pos hempty, hempty]
    rfl
  · rw [if_neg hempty, join_spec hsep, Tokens.intercalate_cut hne, List.nil_append]
  · rw [if_pos hempty, if_pos hempty]
    rfl
  · rw [if_neg hempty, if_neg hempty, Tokens.cut_length]

/-- `a,,,b` at `,,`. -/
theorem split_join_commas : ∃ tokens,
    split ([97, 44, 44, 44, 98] ++ 0 :: []) ([44, 44] ++ 0 :: []) [] = some ([] ++ tokens) ∧
      (∀ token ∈ tokens, ¬ [44, 44] <:+: token) ∧ join tokens ([44, 44] ++ 0 :: []) = some [97, 44, 44, 44, 98] ∧
      tokens.length = (if ([97, 44, 44, 44, 98] : List UInt8) = [] then 0
        else Tokens.occurrences [44, 44] ([97, 44, 44, 44, 98] : List UInt8) + 1) ∧
      ∃ cells positions, splitInPlace ([97, 44, 44, 44, 98] ++ 0 :: []) ([44, 44] ++ 0 :: []) [] =
          some (cells, [] ++ positions) ∧ readTokens cells positions = tokens.map some :=
  split_join [97, 44, 44, 44, 98] [44, 44] [] [] [] [] (by decide) (by decide) (by decide)

example : split [97, 44, 44, 44, 98, 0] [44, 44, 0] [] = some [[97], [44, 98]] := by decide

/-! ## Any separator -/

/-- The `split` that copies returns `result`, after however many iterations. -/
def SplitReturns (str seperator : List UInt8) (output result : List (List UInt8)) : Prop :=
  ∃ strLen sepLength, strlen str = some strLen ∧ strlen seperator = some sepLength ∧
    if strLen = 0 then result = output
    else ∃ fuel, splitFrom str seperator sepLength fuel 0 strLen 0 output = some result

/-- The `split` that changes `str` returns `result`, after however many iterations. -/
def SplitInPlaceReturns (str seperator : List UInt8) (output : List Nat) (result : List UInt8 × List Nat) : Prop :=
  ∃ strLen sepLength, strlen str = some strLen ∧ strlen seperator = some sepLength ∧
    if strLen = 0 then result = (str, output)
    else ∃ fuel, splitInPlaceFrom seperator sepLength fuel str 0 strLen (output ++ [0]) = some result

/-- Both functions return, and with an empty separator all characters of `s` are in the tokens. -/
structure SplitsAll (s sep rest more : List UInt8) (output : List (List UInt8))
    (outputInPlace : List Nat) : Prop where
  copying : ∃ tokens, SplitReturns (s ++ 0 :: rest) (sep ++ 0 :: more) output (output ++ tokens) ∧
    (sep = [] → s.Sublist tokens.flatten)
  inPlace : ∃ (cells : List UInt8) (positions : List Nat) (tokens : List (List UInt8)),
    SplitInPlaceReturns (s ++ 0 :: rest) (sep ++ 0 :: more) outputInPlace (cells, outputInPlace ++ positions) ∧
      readTokens cells positions = tokens.map some ∧ (sep = [] → s.Sublist tokens.flatten)

theorem splitReturns_of_split {str seperator : List UInt8} {output result : List (List UInt8)} {sepLength : Nat}
    (hsep : strlen seperator = some sepLength) (h : split str seperator output = some result) :
    SplitReturns str seperator output result := by
  obtain ⟨strLen, hstr, h⟩ := Option.bind_eq_some_iff.mp h
  refine ⟨strLen, sepLength, hstr, hsep, ?_⟩
  split at h
  · rename_i hzero
    rw [if_pos hzero]
    exact (Option.some.inj h).symm
  · rename_i hlen
    rw [hsep] at h
    rw [if_neg hlen]
    exact ⟨strLen + 1, h⟩

theorem splitInPlaceReturns_of_splitInPlace {str seperator : List UInt8} {output : List Nat}
    {result : List UInt8 × List Nat} {sepLength : Nat} (hsep : strlen seperator = some sepLength)
    (h : splitInPlace str seperator output = some result) : SplitInPlaceReturns str seperator output result := by
  obtain ⟨strLen, hstr, h⟩ := Option.bind_eq_some_iff.mp h
  refine ⟨strLen, sepLength, hstr, hsep, ?_⟩
  split at h
  · rename_i hzero
    rw [if_pos hzero]
    exact (Option.some.inj h).symm
  · rename_i hlen
    rw [hsep] at h
    rw [if_neg hlen]
    exact ⟨strLen + 1, h⟩

/-- **With an empty separator the loop that copies does not end**: no iteration moves `str` or lowers `strLen`. -/
theorem splitFrom_empty {cells seperator : List UInt8} {str : Nat} {c : UInt8} (hcell : cells[str]? = some c)
    (hc : c ≠ 0) (strLen : Nat) : ∀ (fuel ptr : Nat) (output : List (List UInt8)),
    splitFrom cells seperator 0 fuel str strLen ptr output = none
  | 0, _, _ => rfl
  | fuel + 1, ptr, output => by
    have hgo : c ≠ 0 ∧ strLen ≥ 0 := ⟨hc, Nat.zero_le _⟩
    rw [splitFrom, hcell, Option.bind_eq_bind, Option.bind_some, if_pos hgo]
    cases hread : Block.read cells ptr (str - ptr) with
    | none => simp [strncmp]
    | some token => simpa [strncmp] using splitFrom_empty hcell hc strLen fuel str (output ++ [token])

/-- **With an empty separator the other loop ends**, since its first match overwrites the character that the loop
tests: both tokens are empty, and no character is in the output. -/
theorem splitInPlace_empty {a : UInt8} {s : List UInt8} (hs : 0 ∉ a :: s) (rest more : List UInt8)
    (output : List Nat) :
    ∃ cells, SplitInPlaceReturns (a :: s ++ 0 :: rest) (0 :: more) output (cells, output ++ [0, 0]) ∧
      readTokens cells [0, 0] = [some [], some []] := by
  have ha : a ≠ 0 := fun ha => hs (by simp [ha])
  have hlen : (a :: s).length ≠ 0 := Nat.succ_ne_zero _
  refine ⟨0 :: s ++ 0 :: rest, ⟨_, 0, strlen_append hs rest, rfl, ?_⟩, by simp [readTokens, cString]⟩
  rw [if_neg hlen]
  exact ⟨2, by simp [splitInPlaceFrom, strncmp, Block.write, ha]⟩

/-- **Both functions return, and lose nothing, exactly when the separator or the string is as they expect.** -/
theorem splitsAll_iff (s sep rest more : List UInt8) (output : List (List UInt8)) (outputInPlace : List Nat)
    (hs : 0 ∉ s) (hsep : 0 ∉ sep) : SplitsAll s sep rest more output outputInPlace ↔ (sep ≠ [] ∨ s = []) := by
  have hseplen := strlen_append hsep more
  constructor
  · rintro ⟨⟨tokens, ⟨strLen, sepLength, hstr, hsepLength, hreturns⟩, -⟩, -⟩
    by_cases hempty : sep = []
    case neg => exact Or.inl hempty
    subst hempty
    by_cases hne : s = []
    case pos => exact Or.inr hne
    obtain ⟨a, s, rfl⟩ := List.exists_cons_of_ne_nil hne
    have ha : a ≠ 0 := fun ha => hs (by simp [ha])
    cases hseplen.symm.trans hsepLength
    cases (strlen_append hs rest).symm.trans hstr
    rw [if_neg (by simp)] at hreturns
    obtain ⟨fuel, hrun⟩ := hreturns
    rw [List.length_nil, splitFrom_empty (c := a) rfl ha] at hrun
    cases hrun
  · intro hcond
    by_cases hempty : s = []
    · subst hempty
      exact ⟨⟨[], ⟨0, sep.length, rfl, hseplen, by simp⟩, fun _ => List.Sublist.refl _⟩,
        ⟨0 :: rest, [], [], ⟨0, sep.length, rfl, hseplen, by simp⟩, rfl, fun _ => List.Sublist.refl _⟩⟩
    · have hne := hcond.resolve_right hempty
      obtain ⟨cells, positions, hrun, hread⟩ := splitInPlace_spec hne hsep hs rest more outputInPlace
      exact ⟨⟨_, splitReturns_of_split hseplen (split_spec hne hsep hs rest more output), fun h => absurd h hne⟩,
        ⟨cells, positions, _, splitInPlaceReturns_of_splitInPlace hseplen hrun, hread, fun h => absurd h hne⟩⟩

theorem splitsAll_iff_commas : SplitsAll [97, 44, 98] [44] [] [] [] [] :=
  (splitsAll_iff [97, 44, 98] [44] [] [] [] [] (by decide) (by decide)).mpr (Or.inl (by decide))

/-- **`a` at an empty separator.** -/
theorem splitsAll_empty_separator : ¬ ∀ (s sep rest more : List UInt8) (output : List (List UInt8))
    (outputInPlace : List Nat), 0 ∉ s → 0 ∉ sep → SplitsAll s sep rest more output outputInPlace := by
  intro hclaim
  obtain ⟨⟨tokens, ⟨strLen, sepLength, hstr, hsepLength, hreturns⟩, -⟩, -⟩ :=
    hclaim [97] [] [] [] [] [] (by decide) (by decide)
  cases hstr
  cases hsepLength
  obtain ⟨fuel, hrun⟩ := hreturns
  change splitFrom [97, 0] [0] 0 fuel 0 1 0 [] = _ at hrun
  rw [splitFrom_empty (c := 97) rfl (by decide)] at hrun
  cases hrun

end Libws.Core.Strings
