import Libws.Lib.Hex
import Libws.Core.ByteArray

/-!
# Hexadecimal text of a `ByteArray`

Model of `toHexString` and `fromHexString` (`wsCore/src/ByteArray.cpp`) and of `String::bin2Hex`
(`wsCore/src/String.cpp`).  The length of a text is far below `2 ^ 64`.

* `fromHexPairs_spec` — the loop of `fromHexString` succeeds if the first character of every pair is
  a digit, whatever the second one is;
* `accepts_iff` — when `fromHexString` accepts exactly the hexadecimal texts;
* `hex_round_trip` — both encoders, read back.
-/

set_option autoImplicit false

namespace Libws.Core.ByteArray

/-! ## Model -/

/-- `sprintf(dest, format, bytes[i])` for each of the bytes; `dest` advances by 2. -/
def sprintfBytes (format : UInt8 → List UInt8) : (result : List UInt8) → (dest : Nat) → (bytes : List UInt8) →
    Option (List UInt8)
  | result, _, [] => some result
  | result, dest, byte :: bytes => do
    -- `sprintf` ends the text with a NUL
    let result ← Block.write result dest (format byte ++ [0])
    sprintfBytes format result (dest + 2) bytes

/-- `toHexString`; `format` is `"%02X"` or `"%02x"`. -/
def toHexString (b : ByteArray) (upperCase : Bool) : Option (List UInt8) := do
  let format := Hex.byteText upperCase
  let bytes ← Block.read b.data 0 b.writePos
  -- a string owns one more character, its NUL
  let result ← sprintfBytes format (List.replicate (b.writePos * 2 + 1) 0) 0 bytes
  some (result.take (b.writePos * 2))

/-- The digits that the text starts with. -/
def hexPrefix : List UInt8 → List Nat
  | [] => []
  | c :: text =>
    match Hex.value c with
    | some n => n :: hexPrefix text
    | none => []

/-- `std::from_chars` to a `uint8_t`, in base 16; `none` is an error. -/
def fromChars (text : List UInt8) : Option UInt8 :=
  match hexPrefix text with
  | [] => none
  | digits =>
    let value := digits.foldl (16 * · + ·) 0
    if value < 2 ^ 8 then some (UInt8.ofNat value) else none

/-- The loop of `fromHexString`: the block, and whether it went through the text. -/
def fromHexPairs : (data : List UInt8) → (byte : Nat) → (hexStr : List UInt8) → Option (List UInt8 × Bool)
  | data, byte, high :: low :: hexStr =>
    match fromChars [high, low] with
    | none => some (data, false)
    | some value => (Block.write data byte [value]).bind fun data => fromHexPairs data (byte + 1) hexStr
  | data, _, _ => some (data, true)

def fromHexString (fresh : Nat → UInt8) (b : ByteArray) (hexStr : List UInt8) : Option (ByteArray × Bool) :=
  let length := hexStr.length
  if length % 2 ≠ 0 then some (b, false)
  else
    let b := b.truncate fresh (length / 2)
    (fromHexPairs b.data 0 hexStr).map fun (data, ok) =>
      if ok then ({ b with data := data, writePos := length / 2 }, true) else ({ b with data := data }, false)

def HEX_DIGIT : List UInt8 := "0123456789ABCDEF".toList.map Char.toUInt8

/-- `String::bin2Hex`, from a result on. -/
def bin2HexFrom : (result : List UInt8) → (input : List UInt8) → Option (List UInt8)
  | result, [] => some result
  | result, byte :: input => do
    let high ← HEX_DIGIT[(byte >>> 4).toNat]?
    let low ← HEX_DIGIT[(byte &&& 0x0F).toNat]?
    bin2HexFrom (result ++ [high] ++ [low]) input

def bin2Hex (input : List UInt8) : Option (List UInt8) := bin2HexFrom [] input

/-! ## Encoders -/

theorem sprintfBytes_spec (upper : Bool) (bytes : List UInt8) : ∀ (result : List UInt8) (dest : Nat),
    dest + 2 * bytes.length < result.length →
      ∃ result', sprintfBytes (Hex.byteText upper) result dest bytes = some result' ∧
      result'.take (dest + 2 * bytes.length) = result.take dest ++ Hex.encode upper bytes := by
  induction bytes with
  | nil => exact fun result dest _ => ⟨result, rfl, by simp [Hex.encode]⟩
  | cons byte bytes ih =>
    intro result dest hroom
    rw [List.length_cons] at hroom
    have hlen : (Hex.byteText upper byte ++ [0]).length = 3 := rfl
    have hwrite := Block.write_of_le result (Hex.byteText upper byte ++ [0]) dest (by omega)
    generalize hnext : result.take dest ++ _ ++ _ = next at hwrite
    have hnextLen := Block.write_length hwrite
    obtain ⟨result', hrun, htake⟩ := ih next (dest + 2) (by omega)
    refine ⟨result', by simp only [sprintfBytes, hwrite]; exact hrun, ?_⟩
    -- the text of the byte, without the NUL
    have hfront : next.take (dest + 2) = result.take dest ++ Hex.byteText upper byte := by
      have hall := congrArg (List.take (dest + 2)) (Block.take_write hwrite)
      have hsize : (result.take dest ++ Hex.byteText upper byte).length = dest + 2 := by
        simp [Hex.byteText]
        omega
      rw [List.take_take, Nat.min_eq_left (by omega), ← List.append_assoc, ← hsize, List.take_left] at hall
      rw [← hsize, hall]
    rw [Hex.encode_cons, ← List.append_assoc, ← hfront, ← htake, List.length_cons]
    congr 1
    omega

theorem toHexString_spec {b : ByteArray} (h : b.writePos ≤ b.data.length) (upperCase : Bool) :
    b.toHexString upperCase = some (Hex.encode upperCase b.content) := by
  have hread : Block.read b.data 0 b.writePos = some b.content := Block.read_of_le (by omega)
  have hlen := Block.read_length hread
  obtain ⟨result, hrun, htake⟩ := sprintfBytes_spec upperCase b.content (List.replicate (b.writePos * 2 + 1) 0) 0
    (by rw [List.length_replicate]; omega)
  have hsize : 0 + 2 * b.content.length = b.writePos * 2 := by omega
  rw [hsize, List.take_zero, List.nil_append] at htake
  simp only [toHexString, hread, hrun, htake, Option.bind_eq_bind, Option.bind_some]

theorem hexDigit_eq {n : Nat} (h : n < 16) : HEX_DIGIT[n]? = some (Hex.digit true n) := by
  have hall : ∀ n ∈ List.range 16, HEX_DIGIT[n]? = some (Hex.digit true n) := by decide
  exact hall n (List.mem_range.mpr h)

theorem bin2HexFrom_eq (input : List UInt8) :
    ∀ result, bin2HexFrom result input = some (result ++ Hex.encode true input) := by
  induction input with
  | nil => exact fun result => by simp [bin2HexFrom, Hex.encode]
  | cons byte input ih =>
    intro result
    have hlt := byte.toNat_lt
    have hhigh : (byte >>> 4).toNat = byte.toNat / 16 := by simp [Nat.shiftRight_eq_div_pow]
    have hlow : (byte &&& 0x0F).toNat = byte.toNat % 16 := by
      rw [UInt8.toNat_and]
      exact Nat.and_two_pow_sub_one_eq_mod byte.toNat 4
    have hdigitHigh := hexDigit_eq (show byte.toNat / 16 < 16 by omega)
    have hdigitLow := hexDigit_eq (show byte.toNat % 16 < 16 by omega)
    simp [bin2HexFrom, hhigh, hlow, hdigitHigh, hdigitLow, ih, Hex.encode_cons, Hex.byteText]

theorem bin2Hex_eq (input : List UInt8) : bin2Hex input = some (Hex.encode true input) := by
  simp [bin2Hex, bin2HexFrom_eq]

/-! ## Decoder -/

/-- A pair is read if its first character is a digit. -/
theorem fromChars_isSome (high low : UInt8) : (fromChars [high, low]).isSome ↔ Hex.IsDigit high := by
  by_cases hhigh : Hex.IsDigit high
  · obtain ⟨h, hvalue⟩ := hhigh.value_eq
    have hlt := Hex.value_lt hvalue
    refine iff_of_true ?_ hhigh
    cases hlow : Hex.value low with
    | none => simp [fromChars, hexPrefix, hvalue, hlow, show h < 256 by omega]
    | some l =>
      have := Hex.value_lt hlow
      simp [fromChars, hexPrefix, hvalue, hlow, show 16 * h + l < 256 by omega]
  · exact iff_of_false (by simp [fromChars, hexPrefix, Hex.not_isDigit hhigh]) hhigh

theorem fromChars_pair {high low : UInt8} {h l : Nat} (hhigh : Hex.value high = some h)
    (hlow : Hex.value low = some l) : fromChars [high, low] = some (UInt8.ofNat (16 * h + l)) := by
  have := Hex.value_lt hhigh
  have := Hex.value_lt hlow
  simp [fromChars, hexPrefix, hhigh, hlow, show 16 * h + l < 256 by omega]

/-- **The loop**, in a block that has room for the pairs that are read. -/
theorem fromHexPairs_spec : ∀ (hexStr data : List UInt8) (byte : Nat), byte +
    Hex.leadingPairs hexStr ≤ data.length →
    ∃ data' ok, fromHexPairs data byte hexStr = some (data', ok) ∧ data'.length = data.length ∧
      (ok = true ↔ Hex.LeadingDigits hexStr) ∧
      ∀ bytes, Hex.decode hexStr = some bytes → data'.take (byte + bytes.length) = data.take byte ++ bytes
  | [], data, byte, _ => by
    refine ⟨data, true, rfl, rfl, iff_of_true rfl trivial, fun bytes hbytes => ?_⟩
    cases hbytes
    simp
  | [_], data, byte, _ =>
    ⟨data, true, rfl, rfl, iff_of_true rfl trivial, fun bytes hbytes => by simp [Hex.decode] at hbytes⟩
  | high :: low :: hexStr, data, byte, hroom => by
    have hiff := fromChars_isSome high low
    cases hchars : fromChars [high, low] with
    | none =>
      rw [hchars] at hiff
      have hhigh : ¬ Hex.IsDigit high := fun hdigit => Bool.false_ne_true (hiff.mpr hdigit)
      refine ⟨data, false, by simp only [fromHexPairs, hchars], rfl, iff_of_false Bool.false_ne_true fun h => hhigh h.1,
        fun bytes hbytes => ?_⟩
      simp [Hex.decode, Hex.not_isDigit hhigh] at hbytes
    | some value =>
      rw [hchars] at hiff
      have hhigh : Hex.IsDigit high := hiff.mp rfl
      rw [Hex.leadingPairs, if_pos hhigh] at hroom
      have hwrite := Block.write_of_le data [value] byte (by rw [List.length_singleton]; omega)
      generalize data.take byte ++ _ ++ _ = next at hwrite
      have hnextLen := Block.write_length hwrite
      obtain ⟨data', ok, hrun, hlen, hok, hbytes⟩ := fromHexPairs_spec hexStr next (byte + 1) (by omega)
      refine ⟨data', ok, by simp only [fromHexPairs, hchars, hwrite, Option.bind_some, hrun], hlen.trans hnextLen, ?_,
        fun bytes hdecode => ?_⟩
      · exact ⟨fun h => ⟨hhigh, hok.mp h⟩, fun h => hok.mpr h.2⟩
      · simp only [Hex.decode] at hdecode
        split at hdecode
        · rename_i h l rest hvalue hlow hrest
          cases hdecode
          rw [fromChars_pair hvalue hlow] at hchars
          cases hchars
          have htake := Block.take_write hwrite
          rw [List.length_singleton] at htake
          rw [List.length_cons, Nat.add_comm rest.length, ← Nat.add_assoc, hbytes rest hrest, htake,
            List.append_assoc, List.singleton_append]
        · cases hdecode

variable {b : ByteArray}

/-- **What `fromHexString` accepts**, and what it makes of a hexadecimal text. -/
theorem fromHexString_spec (fresh : Nat → UInt8) (howned : b.isAttached = false) (hexStr : List UInt8) :
    ∃ b' ok, b.fromHexString fresh hexStr = some (b', ok) ∧
      (ok = true ↔ hexStr.length % 2 = 0 ∧ Hex.LeadingDigits hexStr) ∧
      ∀ bytes, Hex.decode hexStr = some bytes → b'.content = bytes ∧ b'.readPos = 0 := by
  by_cases heven : hexStr.length % 2 = 0
  · have hle := Hex.leadingPairs_le hexStr
    have hroom : 0 + Hex.leadingPairs hexStr ≤ (b.truncate fresh (hexStr.length / 2)).data.length := by
      by_cases hzero : hexStr.length / 2 = 0
      · omega
      · simp [truncate, hzero, howned, Block.malloc_length, hle]
    obtain ⟨data, ok, hrun, -, hok, hbytes⟩ := fromHexPairs_spec hexStr _ 0 hroom
    have hresult := congrArg (Option.map fun r => (if r.2 then ({ b.truncate fresh (hexStr.length / 2) with
      data := r.1, writePos := hexStr.length / 2 }, true) else
        ({ b.truncate fresh (hexStr.length / 2) with data := r.1 }, false) : ByteArray × Bool)) hrun
    cases ok with
    | false =>
      refine ⟨_, false, by simp only [fromHexString, heven, not_true_eq_false, ne_eq, if_false]; exact hresult, ?_,
        fun bytes hdecode => ?_⟩
      · exact ⟨nofun, fun h => hok.mpr h.2⟩
      · exact nomatch hok.mpr (Hex.leadingDigits_of_forall (Hex.isText_of_decode hdecode).2)
    | true =>
      refine ⟨_, true, by simp only [fromHexString, heven, not_true_eq_false, ne_eq, if_false]; exact hresult, ?_,
        fun bytes hdecode => ⟨?_, ?_⟩⟩
      · exact ⟨fun _ => ⟨heven, hok.mp rfl⟩, fun _ => rfl⟩
      · have htake := hbytes bytes hdecode
        have hlen := Hex.decode_length hdecode
        rwa [List.take_zero, List.nil_append, Nat.zero_add, show bytes.length = hexStr.length / 2 by omega] at htake
      · simp only [truncate]
  · refine ⟨b, false, by simp [fromHexString, heven], ⟨nofun, fun h => absurd h.1 heven⟩, fun bytes hdecode => ?_⟩
    exact absurd (Hex.isText_of_decode hdecode).1 heven

/-- `fromHexString` succeeds on the hexadecimal texts only, with the bytes that the text spells. -/
def Accepts (fresh : Nat → UInt8) (b : ByteArray) (hexStr : List UInt8) : Prop :=
  ∃ b' ok, b.fromHexString fresh hexStr = some (b', ok) ∧ (ok = true ↔ Hex.IsText hexStr) ∧
    (ok = true → Hex.decode hexStr = some b'.content)

/-- **Only a bad character in the second place of a pair goes unnoticed.** -/
theorem accepts_iff (fresh : Nat → UInt8) (howned : b.isAttached = false) (hexStr : List UInt8) :
    b.Accepts fresh hexStr ↔
      (hexStr.length % 2 = 0 → Hex.LeadingDigits hexStr → ∀ c ∈ hexStr, Hex.IsDigit c) := by
  obtain ⟨b', ok, hrun, hok, hbytes⟩ := fromHexString_spec fresh howned hexStr
  constructor
  · rintro ⟨b'', ok', hrun', htext, -⟩ heven hleading
    cases hrun.symm.trans hrun'
    exact (htext.mp (hok.mpr ⟨heven, hleading⟩)).2
  · intro hall
    have htext : ok = true ↔ Hex.IsText hexStr := by
      refine hok.trans ⟨fun h => ⟨h.1, hall h.1 h.2⟩, fun h => ⟨h.1, Hex.leadingDigits_of_forall h.2⟩⟩
    refine ⟨b', ok, hrun, htext, fun htrue => ?_⟩
    obtain ⟨bytes, hdecode⟩ := Hex.decode_of_isText (htext.mp htrue)
    rw [hdecode, (hbytes bytes hdecode).1]

/-- `4aF0` -/
theorem accepts_iff_digits : (ofLength 1).Accepts (fun _ => 0xCD) [0x34, 0x61, 0x46, 0x30] :=
  (accepts_iff (b := ofLength 1) (fun _ => 0xCD) rfl [0x34, 0x61, 0x46, 0x30]).mpr fun _ _ => by decide +kernel

/-- **`0g` is accepted.** -/
theorem accepts_bad_digit : ¬ ∀ (fresh : Nat → UInt8) (b : ByteArray) (hexStr : List UInt8), b.isAttached = false →
    b.Accepts fresh hexStr := by
  intro hclaim
  obtain ⟨b', ok, hrun, htext, -⟩ := hclaim (fun _ => 0xCD) (ofLength 1) [0x30, 0x67] rfl
  have hrun' : (ofLength 1).fromHexString (fun _ => 0xCD) [0x30, 0x67] =
      some ({ ofLength 1 with writePos := 1 }, true) := by decide
  cases hrun'.symm.trans hrun
  exact absurd ((htext.mp rfl).2 0x67 (by decide)) (by decide)

/-- **Both encoders agree, and are read back**, whatever the target held. -/
theorem hex_round_trip (fresh : Nat → UInt8) (bytes : List UInt8) (source target : ByteArray)
    (hblock : source.writePos ≤ source.data.length) (hholds : source.content = bytes)
    (howned : target.isAttached = false) :
    ∃ lower upper, source.toHexString false = some lower ∧ source.toHexString true = some upper ∧
      bin2Hex bytes = some upper ∧ ∀ hexStr ∈ [lower, upper], ∃ target',
        target.fromHexString fresh hexStr = some (target', true) ∧ target'.content = bytes ∧
          target'.readPos = 0 := by
  have hback : ∀ upper : Bool, ∃ target', target.fromHexString fresh (Hex.encode upper bytes) =
    some (target', true) ∧
      target'.content = bytes ∧ target'.readPos = 0 := by
    intro upper
    have hdecode := Hex.decode_encode upper bytes
    have htext := Hex.isText_of_decode hdecode
    obtain ⟨target', ok, hrun, hok, hbytes⟩ := fromHexString_spec fresh howned (Hex.encode upper bytes)
    cases hok.mpr ⟨htext.1, Hex.leadingDigits_of_forall htext.2⟩
    exact ⟨target', hrun, hbytes bytes hdecode⟩
  refine ⟨Hex.encode false bytes, Hex.encode true bytes, ?_, ?_, bin2Hex_eq bytes, fun hexStr hmem => ?_⟩
  · rw [toHexString_spec hblock, hholds]
  · rw [toHexString_spec hblock, hholds]
  · rcases List.mem_cons.mp hmem with rfl | hmem
    · exact hback false
    · cases List.mem_singleton.mp hmem
      exact hback true

theorem hex_round_trip_two : ∃ lower upper,
    (⟨false, false, [0xAB, 0x07], 0, 2, 2⟩ : ByteArray).toHexString false = some lower ∧
      (⟨false, false, [0xAB, 0x07], 0, 2, 2⟩ : ByteArray).toHexString true = some upper ∧
      bin2Hex [0xAB, 0x07] = some upper ∧ ∀ hexStr ∈ [lower, upper], ∃ target',
        (⟨false, true, [1, 2, 3], 2, 3, 3⟩ : ByteArray).fromHexString (fun _ => 0xCD) hexStr =
          some (target', true) ∧
          target'.content = [0xAB, 0x07] ∧ target'.readPos = 0 :=
  hex_round_trip (fun _ => 0xCD) [0xAB, 0x07] _ _ (by decide) rfl rfl

end Libws.Core.ByteArray
