import Libws.Lib.Escape
import Libws.Core.ByteArrayHex

/-!
# `ws::core::String`: `URLEncode` and `URLDecode`

Model of these functions of `wsCore/src/String.cpp`, in the C locale; a `char` is its byte.

* `URLDecode` reads from a pointer: `input` is what stands at each offset, and the offsets that were
  read come with the result.  An index does not wrap, since no object has `2 ^ 64 - 3` bytes.
* `URLDecodeFrom_spec` — the loop takes the pieces of the text one by one; where the text has none, it reads on
  behind the end;
* `url_round_trip`, `URLDecode_inside_iff`.
-/

set_option autoImplicit false

namespace Libws.Core.Strings

open Libws.Escape
open Libws.Core.ByteArray (HEX_DIGIT hexDigit_eq)

/-! ## Model -/

def isdigit (c : UInt8) : Bool := 0x30 ≤ c && c ≤ 0x39

def isupper (c : UInt8) : Bool := 0x41 ≤ c && c ≤ 0x5A

def islower (c : UInt8) : Bool := 0x61 ≤ c && c ≤ 0x7A

def isalnum (c : UInt8) : Bool := isdigit c || isupper c || islower c

def iswxdigit (c : UInt8) : Bool := isdigit c || (0x41 ≤ c && c ≤ 0x46) || (0x61 ≤ c && c ≤ 0x66)

/-- Not encoded: letters, digits, and `-_.~`. -/
def unreserved (c : UInt8) : Bool := isalnum c || c == 0x2D || c == 0x5F || c == 0x2E || c == 0x7E

/-- `URLEncode`, from a result on. -/
def URLEncodeFrom : (result : List UInt8) → (input : List UInt8) → Option (List UInt8)
  | result, [] => some result
  | result, c :: input =>
    if unreserved c then URLEncodeFrom (result ++ [c]) input
    else do
      let high ← HEX_DIGIT[(c >>> 4).toNat]?
      let low ← HEX_DIGIT[(c &&& 0x0F).toNat]?
      URLEncodeFrom (result ++ [0x25] ++ [high] ++ [low]) input

def URLEncode (input : List UInt8) : Option (List UInt8) := URLEncodeFrom [] input

def hex2char (input : UInt8) : UInt8 :=
  if isdigit input then input - 0x30
  else if iswxdigit input then if isupper input then input - 0x41 + 10 else input - 0x61 + 10
  else 0

/-- The loop of `URLDecode`: the string, and the offsets that were read. -/
def URLDecodeFrom (input : Nat → UInt8) (length : Nat) :
    (fuel i : Nat) → (result : List UInt8) → (reads : List Nat) → Option (List UInt8 × List Nat)
  | 0, _, _, _ => none
  | fuel + 1, i, result, reads =>
    if i < length then
      if input i = 0x25 then
        let c := hex2char (input (i + 1)) <<< 4 ||| hex2char (input (i + 2))
        URLDecodeFrom input length fuel (i + 2 + 1) (result ++ [c]) (reads ++ [i, i + 1, i + 2])
      else URLDecodeFrom input length fuel (i + 1) (result ++ [input i]) (reads ++ [i])
    else some (result, reads)

/-- Each iteration raises `i`. -/
def URLDecode (input : Nat → UInt8) (length : Nat) : Option (List UInt8 × List Nat) :=
  URLDecodeFrom input length (length + 1) 0 [] []

/-! ## Pieces -/

/-- The `length` bytes from offset `i` on. -/
def bytesFrom (input : Nat → UInt8) (i length : Nat) : List UInt8 := (List.range' i length).map input

/-- The character that a piece stands for. -/
def charOf : Piece (0x25 : UInt8) → UInt8
  | .plain c _ => c
  | .escape high low => hex2char high <<< 4 ||| hex2char low

theorem bytesFrom_succ (input : Nat → UInt8) (i length : Nat) :
    bytesFrom input i (length + 1) = input i :: bytesFrom input (i + 1) length := by
  rw [bytesFrom, List.range'_succ, List.map_cons]
  rfl

variable (input : Nat → UInt8)

theorem URLDecodeFrom_end {length i fuel : Nat} (hi : length ≤ i) (hfuel : 0 < fuel)
    (result : List UInt8) (reads : List Nat) :
    URLDecodeFrom input length fuel i result reads = some (result, reads) := by
  cases fuel with
  | zero => exact absurd hfuel (Nat.lt_irrefl 0)
  | succ fuel => rw [URLDecodeFrom, if_neg (Nat.not_lt_of_le hi)]

/-- What the loop does with what is left: if it is a text of pieces, it stands for their characters and all reads
are inside; if not, some read is behind the end. -/
def Decodes (pieces : Option (List (Piece (0x25 : UInt8)))) (last : Nat) (result result' : List UInt8)
    (more : List Nat) : Prop :=
  match pieces with
  | some pieces => result' = result ++ pieces.map charOf ∧ ∀ p ∈ more, p < last
  | none => ∃ p ∈ more, last ≤ p

/-- One more piece in front. -/
theorem Decodes.cons {pieces : Option (List (Piece (0x25 : UInt8)))} {last : Nat} {result result' : List UInt8}
    {more reads : List Nat} (piece : Piece (0x25 : UInt8))
    (h : Decodes pieces last (result ++ [charOf piece]) result' more) (hreads : ∀ p ∈ reads, p < last) :
    Decodes (pieces.map (piece :: ·)) last result result' (reads ++ more) := by
  cases pieces with
  | none =>
    obtain ⟨p, hmem, hp⟩ := h
    exact ⟨p, List.mem_append_right _ hmem, hp⟩
  | some pieces =>
    obtain ⟨hresult, hmore⟩ := h
    refine ⟨by rw [hresult, List.append_assoc, List.singleton_append, List.map_cons], fun p hp => ?_⟩
    exact (List.mem_append.mp hp).elim (hreads p) (hmore p)

/-- **The loop of `URLDecode` ends.** -/
theorem URLDecodeFrom_spec (fuel : Nat) : ∀ (length i : Nat) (result : List UInt8)
    (reads : List Nat), length < fuel →
    ∃ result' more, URLDecodeFrom input (i + length) fuel i result reads = some (result', reads ++ more) ∧
      Decodes (cut 0x25 (bytesFrom input i length)) (i + length) result result' more := by
  induction fuel with
  | zero => exact fun _ _ _ _ hfuel => absurd hfuel (Nat.not_lt_zero _)
  | succ fuel ih =>
    intro length i result reads hfuel
    cases length with
    | zero =>
      have hrun := URLDecodeFrom_end input (Nat.le_refl (i + 0)) hfuel result reads
      exact ⟨result, [], by rw [List.append_nil]; exact hrun, (List.append_nil _).symm, nofun⟩
    | succ length =>
      have hlt : i < i + (length + 1) := Nat.lt_add_of_pos_right (Nat.succ_pos _)
      rw [URLDecodeFrom, if_pos hlt, bytesFrom_succ]
      by_cases hmark : input i = 0x25
      · rw [if_pos hmark, hmark]
        match length, hfuel with
        | 0, hfuel =>
          refine ⟨_, [i, i + 1, i + 2], URLDecodeFrom_end input (by omega) (by omega) _ _, i + 1, by simp,
            Nat.le_refl _⟩
        | 1, hfuel =>
          refine ⟨_, [i, i + 1, i + 2], URLDecodeFrom_end input (by omega) (by omega) _ _, i + 2, by simp,
            Nat.le_refl _⟩
        | length + 2, hfuel =>
          obtain ⟨result', more, hrun, hdecodes⟩ := ih length (i + 2 + 1)
            (result ++ [hex2char (input (i + 1)) <<< 4 ||| hex2char (input (i + 2))])
              (reads ++ [i, i + 1, i + 2]) (by omega)
          have hlast : i + 2 + 1 + length = i + (length + 2 + 1) := by omega
          rw [hlast] at hrun hdecodes
          rw [List.append_assoc] at hrun
          refine ⟨result', _, hrun, ?_⟩
          rw [bytesFrom_succ, bytesFrom_succ, cut_escape]
          exact hdecodes.cons (.escape _ _) (by simp)
      · rw [if_neg hmark, cut_plain hmark]
        obtain ⟨result', more, hrun, hdecodes⟩ := ih length (i + 1) (result ++ [input i]) (reads ++ [i]) (by omega)
        have hlast : i + 1 + length = i + (length + 1) := by omega
        rw [hlast] at hrun hdecodes
        rw [List.append_assoc] at hrun
        exact ⟨result', _, hrun, hdecodes.cons (.plain _ hmark) (by simp)⟩

theorem URLDecode_spec (length : Nat) : ∃ result reads, URLDecode input length = some (result, reads) ∧
    Decodes (cut 0x25 (bytesFrom input 0 length)) length [] result reads := by
  have hrun := URLDecodeFrom_spec input (length + 1) length 0 [] [] (Nat.lt_succ_self _)
  rw [Nat.zero_add] at hrun
  exact hrun

/-! ## Encoding -/

theorem unreserved_ne {c : UInt8} (h : unreserved c = true) : c ≠ 0x25 := by
  rintro rfl
  exact absurd h (by decide)

/-- The piece that a character is encoded as. -/
def pieceOf (c : UInt8) : Piece (0x25 : UInt8) :=
  if h : unreserved c = true then .plain c (unreserved_ne h)
  else .escape (Hex.digit true (c.toNat / 16)) (Hex.digit true (c.toNat % 16))

theorem URLEncodeFrom_eq (input : List UInt8) : ∀ result,
    URLEncodeFrom result input = some (result ++ Escape.text (input.map pieceOf)) := by
  induction input with
  | nil => exact fun result => by simp [URLEncodeFrom, Escape.text]
  | cons c input ih =>
    intro result
    rw [URLEncodeFrom, List.map_cons, text_cons, ← List.append_assoc, ← ih]
    by_cases hc : unreserved c = true
    · rw [if_pos hc, pieceOf, dif_pos hc]
      rfl
    · have hlt := c.toNat_lt
      have hhigh : (c >>> 4).toNat = c.toNat / 16 := by simp [Nat.shiftRight_eq_div_pow]
      have hlow : (c &&& 0x0F).toNat = c.toNat % 16 := by
        rw [UInt8.toNat_and]
        exact Nat.and_two_pow_sub_one_eq_mod c.toNat 4
      rw [if_neg hc, pieceOf, dif_neg hc, hhigh, hlow, hexDigit_eq (by omega), hexDigit_eq (by omega)]
      simp [Piece.text]

/-- A digit of an escape is read back. -/
theorem hex2char_digit {n : Nat} (h : n < 16) : hex2char (Hex.digit true n) = UInt8.ofNat n := by
  have hall : ∀ n ∈ List.range 16, hex2char (Hex.digit true n) = UInt8.ofNat n := by decide
  exact hall n (List.mem_range.mpr h)

theorem charOf_pieceOf (c : UInt8) : charOf (pieceOf c) = c := by
  unfold pieceOf
  split
  · rfl
  · have hall : ∀ n ∈ List.range 256, UInt8.ofNat (n / 16) <<< 4 ||| UInt8.ofNat (n % 16) = UInt8.ofNat n := by
      decide +kernel
    have hlt := c.toNat_lt
    rw [charOf, hex2char_digit (by omega), hex2char_digit (by omega), hall _ (List.mem_range.mpr hlt),
      UInt8.ofNat_toNat]

/-- A letter, a digit, or one of `-_.~%`. -/
def UrlChar (c : UInt8) : Prop := unreserved c = true ∨ c = 0x25

instance : DecidablePred UrlChar := fun c => inferInstanceAs (Decidable (unreserved c = true ∨ c = 0x25))

theorem urlChar_of_mem_text {input : List UInt8} {c : UInt8} (h : c ∈ Escape.text (input.map pieceOf)) :
    UrlChar c := by
  obtain ⟨piece, hpiece, hc⟩ := List.mem_flatMap.mp h
  obtain ⟨a, -, rfl⟩ := List.mem_map.mp hpiece
  unfold pieceOf at hc
  split at hc
  · rename_i ha
    rw [List.mem_singleton.mp hc]
    exact Or.inl ha
  · have hdigit : ∀ n ∈ List.range 16, unreserved (Hex.digit true n) = true := by decide
    have hlt := a.toNat_lt
    simp only [Piece.text, List.mem_cons, List.not_mem_nil, or_false] at hc
    rcases hc with rfl | rfl | rfl
    · exact Or.inr rfl
    · exact Or.inl (hdigit _ (List.mem_range.mpr (by omega)))
    · exact Or.inl (hdigit _ (List.mem_range.mpr (by omega)))

/-! ## Both functions -/

/-- **`URLDecode` undoes `URLEncode`**, from wherever the encoded string stands. -/
theorem url_round_trip (s : List UInt8) : ∃ encoded, URLEncode s = some encoded ∧ (∀ c ∈ encoded, UrlChar c) ∧
    ∀ input : Nat → UInt8, bytesFrom input 0 encoded.length = encoded →
      ∃ reads, URLDecode input encoded.length = some (s, reads) := by
  refine ⟨Escape.text (s.map pieceOf), URLEncodeFrom_eq s [], fun c hc => urlChar_of_mem_text hc,
    fun input hinput => ?_⟩
  obtain ⟨result, reads, hrun, hdecodes⟩ := URLDecode_spec input (Escape.text (s.map pieceOf)).length
  rw [hinput, cut_text] at hdecodes
  have hresult : result = s := by
    rw [hdecodes.1, List.nil_append, List.map_map]
    exact (List.map_congr_left fun c _ => charOf_pieceOf c).trans (List.map_id s)
  exact ⟨reads, hresult ▸ hrun⟩

/-- A percent sign, and a byte that is no character. -/
theorem url_round_trip_percent : ∃ reads,
    URLDecode ([0x25, 0x32, 0x35, 0x25, 0x46, 0x46].getD · 0) 6 = some ([0x25, 0xFF], reads) := by
  obtain ⟨encoded, hencode, -, hdecode⟩ := url_round_trip [0x25, 0xFF]
  have hencoded : URLEncode [0x25, 0xFF] = some [0x25, 0x32, 0x35, 0x25, 0x46, 0x46] := by decide
  cases hencoded.symm.trans hencode
  exact hdecode ([0x25, 0x32, 0x35, 0x25, 0x46, 0x46].getD · 0) (by decide)

/-- The call ends, and reads only the input. -/
def Inside (input : Nat → UInt8) (length : Nat) : Prop :=
  ∃ result reads, URLDecode input length = some (result, reads) ∧ ∀ p ∈ reads, p < length

/-- **`URLDecode` stays inside its input exactly when each percent sign that begins an escape has two characters
behind it.** -/
theorem URLDecode_inside_iff (length : Nat) :
    Inside input length ↔ ∃ pieces : List (Piece (0x25 : UInt8)),
      Escape.text pieces = bytesFrom input 0 length := by
  obtain ⟨result, reads, hrun, hdecodes⟩ := URLDecode_spec input length
  constructor
  · rintro ⟨result', reads', hrun', hinside⟩
    cases hrun.symm.trans hrun'
    cases hcut : cut 0x25 (bytesFrom input 0 length) with
    | some pieces => exact ⟨pieces, text_of_cut hcut⟩
    | none =>
      rw [hcut] at hdecodes
      obtain ⟨p, hmem, hp⟩ := hdecodes
      exact absurd (hinside p hmem) (Nat.not_lt_of_le hp)
  · rintro ⟨pieces, htext⟩
    rw [← htext, cut_text] at hdecodes
    exact ⟨result, reads, hrun, hdecodes.2⟩

/-- **The input `%`.** -/
theorem URLDecode_reads_behind : ¬ ∀ (input : Nat → UInt8) (length : Nat), Inside input length := by
  intro hclaim
  obtain ⟨result, reads, hrun, hinside⟩ := hclaim (fun p => if p = 0 then 0x25 else 0) 1
  have hreads : URLDecode (fun p => if p = 0 then 0x25 else 0) 1 = some ([0], [0, 1, 2]) := by decide
  cases hreads.symm.trans hrun
  exact absurd (hinside 2 (by decide)) (by decide)

end Libws.Core.Strings
