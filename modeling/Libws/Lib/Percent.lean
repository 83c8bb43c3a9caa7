import Libws.Lib.Hex

/-!
# Percent-encoding

A text is encoded with the bytes that stand for themselves left as they are, and every other byte as `%` and two
hexadecimal digits.  Decoding takes a `%` that two digits follow for their byte, and every other character for
itself.

* `decode_encode` — the round trip, for any choice that does not keep `%`.
* `mem_encode` — what an encoded text is made of: a separator that is kept out of it can join encoded texts.
* `decode_spec` — decoding leaves a text alone exactly where no `%` has two digits behind it, and otherwise
  shortens it.
-/

set_option autoImplicit false

namespace Libws.Percent

open Libws.Hex

/-- `%`. -/
def mark : UInt8 := 0x25

section Encode

variable (keep : UInt8 → Bool)

def encodeByte (c : UInt8) : List UInt8 := if keep c then [c] else mark :: byteText true c

def encode (bytes : List UInt8) : List UInt8 := bytes.flatMap (encodeByte keep)

end Encode

def decode : List UInt8 → List UInt8
  | [] => []
  | [c] => [c]
  | [c, c'] => [c, c']
  | c :: high :: low :: text =>
    if c = mark ∧ IsDigit high ∧ IsDigit low then
      UInt8.ofNat (16 * (value high).getD 0 + (value low).getD 0) :: decode text
    else c :: decode (high :: low :: text)

/-- No `%` is followed by two digits. -/
def Plain (text : List UInt8) : Prop :=
  ∀ high low : UInt8, IsDigit high → IsDigit low → ¬ [mark, high, low] <:+: text

/-! ## The round trip -/

theorem decode_cons_of_ne {c : UInt8} (h : c ≠ mark) : ∀ text : List UInt8, decode (c :: text) = c :: decode text
  | [] | [_] => rfl
  | high :: low :: text => by
    rw [decode, if_neg]
    exact fun hmark => h hmark.1

theorem isDigit_digit (upper : Bool) {n : Nat} (h : n < 16) : IsDigit (digit upper n) := by
  simp [IsDigit, value_digit upper h]

theorem decode_byteText (upper : Bool) (c : UInt8) (text : List UInt8) :
    decode (mark :: byteText upper c ++ text) = c :: decode text := by
  have hlt := c.toNat_lt
  have hhigh : c.toNat / 16 < 16 := by omega
  have hlow : c.toNat % 16 < 16 := by omega
  simp only [byteText, List.cons_append, List.nil_append]
  rw [decode, if_pos ⟨rfl, isDigit_digit upper hhigh, isDigit_digit upper hlow⟩, value_digit upper hhigh,
    value_digit upper hlow]
  simp only [Option.getD_some]
  rw [Nat.div_add_mod, UInt8.ofNat_toNat]

section Encode

variable {keep : UInt8 → Bool}

theorem decode_encode (hmark : keep mark = false) (bytes : List UInt8) : decode (encode keep bytes) = bytes := by
  induction bytes with
  | nil => rfl
  | cons c bytes ih =>
    have hcons : encode keep (c :: bytes) = encodeByte keep c ++ encode keep bytes := List.flatMap_cons ..
    rw [hcons, encodeByte]
    split
    · have hne : c ≠ mark := by
        rintro rfl
        simp_all
      rw [List.singleton_append, decode_cons_of_ne hne, ih]
    · rw [decode_byteText, ih]

theorem mem_encode {c : UInt8} {bytes : List UInt8} (h : c ∈ encode keep bytes) :
    keep c = true ∨ c = mark ∨ IsDigit c := by
  obtain ⟨b, -, hmem⟩ := List.mem_flatMap.mp h
  have hlt := b.toNat_lt
  unfold encodeByte at hmem
  split at hmem
  · rename_i hkeep
    rw [List.mem_singleton.mp hmem]
    exact .inl hkeep
  · simp only [byteText, List.mem_cons, List.not_mem_nil, or_false] at hmem
    rcases hmem with rfl | rfl | rfl
    · exact .inr (.inl rfl)
    · exact .inr (.inr (isDigit_digit true (by omega)))
    · exact .inr (.inr (isDigit_digit true (by omega)))

end Encode

/-! ## Other texts -/

theorem plain_cons {c : UInt8} {text : List UInt8} :
    Plain (c :: text) ↔
      (∀ high low, IsDigit high → IsDigit low → ¬ [mark, high, low] <+: c :: text) ∧ Plain text := by
  simp only [Plain, List.infix_cons_iff, not_or]
  exact ⟨fun h => ⟨fun high low hh hl => (h high low hh hl).1, fun high low hh hl => (h high low hh hl).2⟩,
    fun h high low hh hl => ⟨h.1 high low hh hl, h.2 high low hh hl⟩⟩

theorem plain_of_length_lt {text : List UInt8} (h : text.length < 3) : Plain text := by
  intro high low _ _ hinfix
  have hle := hinfix.length_le
  simp only [List.length_cons, List.length_nil] at hle
  omega

/-- **Decoding**, of any text. -/
theorem decode_spec (text : List UInt8) :
    (Plain text ∧ decode text = text) ∨ (¬ Plain text ∧ (decode text).length < text.length) := by
  induction text using decode.induct with
  | case1 => exact .inl ⟨plain_of_length_lt (by simp), rfl⟩
  | case2 => exact .inl ⟨plain_of_length_lt (by simp), rfl⟩
  | case3 => exact .inl ⟨plain_of_length_lt (by simp), rfl⟩
  | case4 c high low text hescape ih =>
    obtain ⟨rfl, hhigh, hlow⟩ := hescape
    refine .inr ⟨fun hplain => (plain_cons.mp hplain).1 high low hhigh hlow ⟨text, rfl⟩, ?_⟩
    rw [decode, if_pos ⟨rfl, hhigh, hlow⟩]
    have hle : (decode text).length ≤ text.length := by
      rcases ih with ⟨-, heq⟩ | ⟨-, hlt⟩
      · exact Nat.le_of_eq (congrArg List.length heq)
      · exact Nat.le_of_lt hlt
    simp only [List.length_cons]
    omega
  | case5 c high low text hescape ih =>
    have hhead : ∀ h l, IsDigit h → IsDigit l → ¬ [mark, h, l] <+: c :: high :: low :: text := by
      rintro h l hh hl ⟨rest, heq⟩
      simp only [List.cons_append, List.nil_append, List.cons.injEq] at heq
      obtain ⟨rfl, rfl, rfl, -⟩ := heq
      exact hescape ⟨rfl, hh, hl⟩
    rw [decode, if_neg hescape, plain_cons]
    rcases ih with ⟨hplain, heq⟩ | ⟨hplain, hlt⟩
    · exact .inl ⟨⟨hhead, hplain⟩, congrArg (c :: ·) heq⟩
    · refine .inr ⟨fun h => hplain h.2, ?_⟩
      simp only [List.length_cons] at hlt ⊢
      omega

theorem decode_eq_self_iff {text : List UInt8} : decode text = text ↔ Plain text := by
  rcases decode_spec text with ⟨hplain, heq⟩ | ⟨hplain, hlt⟩
  · simp [hplain, heq]
  · simp only [hplain, iff_false]
    exact fun heq => Nat.lt_irrefl _ (heq ▸ hlt)

theorem length_decode_le (text : List UInt8) : (decode text).length ≤ text.length := by
  rcases decode_spec text with ⟨-, heq⟩ | ⟨-, hlt⟩
  · exact Nat.le_of_eq (congrArg List.length heq)
  · exact Nat.le_of_lt hlt

end Libws.Percent
