/-!
# Hexadecimal text

A character is a byte, in ASCII.

* `value`, `digit` — one digit, read and written; `value_digit`.
* `encode`, `decode` — two digits for a byte; `decode_encode`.
* `decode_of_isText` — what is decoded: an even number of digits.
* `LeadingDigits` — the first character of every pair is a digit; `leadingPairs` counts up to the first that is
  not one.
-/

set_option autoImplicit false

namespace Libws.Hex

/-- Of `0-9`, `A-F`, `a-f`. -/
def value (c : UInt8) : Option Nat :=
  if 0x30 ≤ c.toNat ∧ c.toNat ≤ 0x39 then some (c.toNat - 0x30)
  else if 0x41 ≤ c.toNat ∧ c.toNat ≤ 0x46 then some (c.toNat - 0x41 + 10)
  else if 0x61 ≤ c.toNat ∧ c.toNat ≤ 0x66 then some (c.toNat - 0x61 + 10)
  else none

def IsDigit (c : UInt8) : Prop := (value c).isSome

instance : DecidablePred IsDigit := fun c => inferInstanceAs (Decidable ((value c).isSome = true))

def digit (upper : Bool) (n : Nat) : UInt8 :=
  if n < 10 then UInt8.ofNat (0x30 + n)
  else if upper then UInt8.ofNat (0x41 + (n - 10))
  else UInt8.ofNat (0x61 + (n - 10))

theorem value_lt {c : UInt8} {n : Nat} (h : value c = some n) : n < 16 := by
  unfold value at h
  split at h
  · cases h
    omega
  split at h
  · cases h
    omega
  split at h
  · cases h
    omega
  · cases h

theorem value_digit (upper : Bool) {n : Nat} (h : n < 16) : value (digit upper n) = some n := by
  have hall : ∀ upper : Bool, ∀ n ∈ List.range 16, value (digit upper n) = some n := by decide
  exact hall upper n (List.mem_range.mpr h)

theorem not_isDigit {c : UInt8} (h : ¬ IsDigit c) : value c = none := by simpa [IsDigit] using h

theorem IsDigit.value_eq {c : UInt8} (h : IsDigit c) : ∃ n, value c = some n := Option.isSome_iff_exists.mp h

/-! ## Bytes -/

def byteText (upper : Bool) (byte : UInt8) : List UInt8 :=
  [digit upper (byte.toNat / 16), digit upper (byte.toNat % 16)]

def encode (upper : Bool) (bytes : List UInt8) : List UInt8 := bytes.flatMap (byteText upper)

/-- The bytes whose digits the text spells. -/
def decode : List UInt8 → Option (List UInt8)
  | [] => some []
  | [_] => none
  | high :: low :: text =>
    match value high, value low, decode text with
    | some h, some l, some bytes => some (UInt8.ofNat (16 * h + l) :: bytes)
    | _, _, _ => none

theorem encode_cons (upper : Bool) (byte : UInt8) (bytes : List UInt8) :
    encode upper (byte :: bytes) = byteText upper byte ++ encode upper bytes := List.flatMap_cons ..

theorem decode_length : ∀ {text bytes : List UInt8}, decode text = some bytes → text.length = 2 * bytes.length
  | [], _, h => by
    cases h
    rfl
  | [_], _, h => by simp [decode] at h
  | high :: low :: text, bytes, h => by
    simp only [decode] at h
    split at h
    · rename_i hrest
      cases h
      simp only [List.length_cons, decode_length hrest]
      omega
    · cases h

theorem decode_encode (upper : Bool) (bytes : List UInt8) : decode (encode upper bytes) = some bytes := by
  induction bytes with
  | nil => rfl
  | cons byte bytes ih =>
    have hlt := byte.toNat_lt
    have hhigh : value (digit upper (byte.toNat / 16)) = some (byte.toNat / 16) := value_digit upper (by omega)
    have hlow : value (digit upper (byte.toNat % 16)) = some (byte.toNat % 16) := value_digit upper (by omega)
    rw [encode_cons]
    simp only [byteText, List.cons_append, List.nil_append, decode, hhigh, hlow, ih]
    rw [Nat.div_add_mod, UInt8.ofNat_toNat]

/-! ## Texts -/

/-- An even number of digits. -/
def IsText (text : List UInt8) : Prop := text.length % 2 = 0 ∧ ∀ c ∈ text, IsDigit c

/-- The first character of every pair is a digit. -/
def LeadingDigits : List UInt8 → Prop
  | high :: _ :: text => IsDigit high ∧ LeadingDigits text
  | _ => True

/-- The pairs in front of the first one that does not begin with a digit. -/
def leadingPairs : List UInt8 → Nat
  | high :: _ :: text => if IsDigit high then leadingPairs text + 1 else 0
  | _ => 0

theorem leadingPairs_le : ∀ text : List UInt8, leadingPairs text ≤ text.length / 2
  | [] | [_] => Nat.zero_le _
  | high :: low :: text => by
    have hrest := leadingPairs_le text
    rw [leadingPairs]
    simp only [List.length_cons]
    split <;> omega

theorem leadingPairs_eq : ∀ {text : List UInt8}, LeadingDigits text → leadingPairs text = text.length / 2
  | [], _ => rfl
  | [_], _ => by simp [leadingPairs]
  | high :: low :: text, h => by
    rw [leadingPairs, if_pos h.1, leadingPairs_eq h.2]
    simp only [List.length_cons]
    omega

theorem leadingDigits_of_forall : ∀ {text : List UInt8}, (∀ c ∈ text, IsDigit c) → LeadingDigits text
  | [], _ | [_], _ => trivial
  | high :: low :: text, h =>
    ⟨h high (by simp), leadingDigits_of_forall fun c hc => h c (by simp [hc])⟩

theorem decode_of_isText : ∀ {text : List UInt8}, IsText text → ∃ bytes, decode text = some bytes
  | [], _ => ⟨[], rfl⟩
  | [_], h => absurd h.1 (by simp)
  | high :: low :: text, h => by
    have hrest : IsText text := ⟨by simpa [Nat.add_assoc] using h.1, fun c hc => h.2 c (by simp [hc])⟩
    obtain ⟨bytes, hbytes⟩ := decode_of_isText hrest
    obtain ⟨hi, hhigh⟩ := (h.2 high (by simp)).value_eq
    obtain ⟨lo, hlow⟩ := (h.2 low (by simp)).value_eq
    exact ⟨_, by simp only [decode, hhigh, hlow, hbytes]; rfl⟩

theorem isText_of_decode : ∀ {text bytes : List UInt8}, decode text = some bytes → IsText text
  | [], _, _ => ⟨rfl, nofun⟩
  | [_], _, h => by simp [decode] at h
  | high :: low :: text, bytes, h => by
    simp only [decode] at h
    split at h
    · rename_i hi lo rest hhigh hlow hrest
      have hdigits := isText_of_decode hrest
      refine ⟨by simpa [Nat.add_assoc] using hdigits.1, fun c hc => ?_⟩
      rcases List.mem_cons.mp hc with rfl | hc
      · simp [IsDigit, hhigh]
      · rcases List.mem_cons.mp hc with rfl | hc
        · simp [IsDigit, hlow]
        · exact hdigits.2 c hc
    · cases h

end Libws.Hex
