import Libws.Core.ByteArrayPositions

/-!
# Reading from any `ByteArray`

* `Unreads b q` — the positions are in order and the cursor stands in front of the bytes `q`; the array may
  own its block, be attached to one, or be read-only;
* `operatorShr_unreads`, `readNumber_eq` — a typed read takes all its bytes from the front, or none;
* `Payload.frame` — a string as it stands in a stream, with its length in two bytes;
* `readStringPrefixed_frame`, `operatorShrString_frame` — the two ways to read it;
* `string_reads_agree_iff` — when they agree: an empty string leaves the target of `operator>>` as it was.
-/

set_option autoImplicit false

namespace Libws.Core

open Libws.Word

namespace ByteArray

/-- The bytes `q` stand between the two positions. -/
structure Unreads (b : ByteArray) (q : List UInt8) : Prop where
  ordered : Ordered b
  unread : b.content.drop b.readPos = q

variable {b : ByteArray} {q xs rest : List UInt8}

theorem Ordered.content_length (h : Ordered b) : b.content.length = b.writePos := by
  have hwrite := h.write_le
  have hdata := h.data_length
  simp only [content, List.length_take]
  omega

theorem Unreads.readAvailable_eq (h : Unreads b q) : b.readAvailable = q.length := by
  rw [h.ordered.readAvailable_eq, ← h.unread, List.length_drop, h.ordered.content_length]

/-- The bytes at the front are read, and the cursor moves behind them. -/
theorem Unreads.take (h : Unreads b q) {n : Nat} (hn : n ≤ q.length) :
    Block.read b.data b.readPos n = some (q.take n) ∧
      Unreads { b with readPos := add64 b.readPos n } (q.drop n) := by
  have havail := h.readAvailable_eq
  have hread := h.ordered.read_le
  have hwrite := h.ordered.write_le
  have hcap := h.ordered.capacity_lt
  have hdata := h.ordered.data_length
  rw [h.ordered.readAvailable_eq] at havail
  constructor
  · rw [Block.read_of_le (by omega), ← h.unread, content, List.drop_take, List.take_take,
      Nat.min_eq_left (by omega)]
  · refine ⟨h.ordered.advance (by rw [h.readAvailable_eq]; exact hn), ?_⟩
    rw [add64_of_lt (by omega), ← h.unread, List.drop_drop]
    rfl

theorem Unreads.front (h : Unreads b (xs ++ rest)) :
    Block.read b.data b.readPos xs.length = some xs ∧
      Unreads { b with readPos := add64 b.readPos xs.length } rest := by
  have htake := h.take (n := xs.length) (by rw [List.length_append]; omega)
  rw [List.take_left, List.drop_left] at htake
  exact htake

/-- Bytes that are copied into a new block, or attached. -/
theorem ofBytes_unreads (bytes : List UInt8) (copy : Bool) (hlt : bytes.length < 2 ^ 64) :
    Unreads (ofBytes bytes copy) bytes := by
  refine ⟨⟨Nat.zero_le _, Nat.le_refl _, rfl, hlt⟩, ?_⟩
  show (bytes.take bytes.length).drop 0 = bytes
  rw [List.take_length, List.drop_zero]

/-! ## Typed reads -/

/-- A typed read of a queue: all bytes of the value, or none. -/
def frontRead (q old : List UInt8) : List UInt8 × List UInt8 :=
  if old.length ≤ q.length then (q.drop old.length, q.take old.length) else (q, old)

theorem operatorShr_unreads (h : Unreads b q) (val : List UInt8) :
    ∃ b', b.operatorShr val = some (b', (frontRead q val).2) ∧ Unreads b' (frontRead q val).1 := by
  unfold operatorShr frontRead
  rw [h.readAvailable_eq]
  split
  · rename_i hle
    obtain ⟨hread, h'⟩ := h.take hle
    exact ⟨_, by rw [hread, Option.map_some], h'⟩
  · exact ⟨b, rfl, h⟩

/-- `readNumber` reads into a value of zeros. -/
theorem readNumber_eq (b : ByteArray) (typeSize : Nat) :
    b.readNumber typeSize = b.operatorShr (List.replicate typeSize 0) := by
  simp only [readNumber, operatorShr, List.length_replicate]

theorem readNumber_front (h : Unreads b (xs ++ rest)) :
    b.readNumber xs.length = some ({ b with readPos := add64 b.readPos xs.length }, xs) := by
  have hle : xs.length ≤ b.readAvailable := by
    rw [h.readAvailable_eq, List.length_append]
    omega
  rw [readNumber, if_pos hle, h.front.1, Option.map_some]

end ByteArray

/-! ## Strings -/

/-- What can stand behind a length of two bytes. -/
abbrev Payload := { bytes : List UInt8 // bytes.length < 2 ^ 16 }

/-- The string in a stream: its length, then so many bytes. -/
def Payload.frame (p : Payload) : List UInt8 := leBytes 2 p.val.length ++ p.val

namespace ByteArray

variable {b : ByteArray} {p : Payload} {rest : List UInt8}

/-- The array behind the length of the string. -/
def behindLength (b : ByteArray) : ByteArray := { b with readPos := add64 b.readPos 2 }

/-- The array behind the string. -/
def behindFrame (b : ByteArray) (p : Payload) : ByteArray :=
  { b.behindLength with readPos := add64 b.behindLength.readPos p.val.length }

theorem behindLength_unreads (h : Unreads b (p.frame ++ rest)) : Unreads b.behindLength (p.val ++ rest) := by
  rw [Payload.frame, List.append_assoc] at h
  have hfront := h.front.2
  rw [leBytes_length] at hfront
  exact hfront

theorem behindFrame_unreads (h : Unreads b (p.frame ++ rest)) : Unreads (b.behindFrame p) rest :=
  (behindLength_unreads h).front.2

/-- Both ways start with the length. -/
theorem readLength_frame (h : Unreads b (p.frame ++ rest)) :
    ∃ len, b.readNumber 2 = some (b.behindLength, len) ∧ leNat len = p.val.length := by
  rw [Payload.frame, List.append_assoc] at h
  have hread := readNumber_front h
  rw [leBytes_length] at hread
  exact ⟨_, hread, leNat_leBytes 2 _ p.property⟩

/-- An empty string leaves the cursor behind its length. -/
theorem behindFrame_nil (h : Unreads b (p.frame ++ rest)) (hnil : p.val = []) :
    b.behindFrame p = b.behindLength := by
  have hread := (behindLength_unreads h).ordered.read_le
  have hwrite := (behindLength_unreads h).ordered.write_le
  have hcap := (behindLength_unreads h).ordered.capacity_lt
  rw [behindFrame, hnil, List.length_nil, add64_of_lt (by omega), Nat.add_zero]

/-- **`readString()` gives the string.** -/
theorem readStringPrefixed_frame (h : Unreads b (p.frame ++ rest)) :
    b.readStringPrefixed = some (b.behindFrame p, p.val) := by
  obtain ⟨len, hlen, hvalue⟩ := readLength_frame h
  have hrest := behindLength_unreads h
  have havail : ¬ p.val.length > b.behindLength.readAvailable := by
    rw [hrest.readAvailable_eq, List.length_append]
    omega
  simp only [readStringPrefixed, hlen, Option.bind_eq_bind, Option.bind_some, hvalue, readString, if_neg havail]
  split
  · rw [hrest.front.1]
    rfl
  · rename_i hzero
    have hnil : p.val = [] := List.length_eq_zero_iff.mp (by omega)
    rw [behindFrame_nil h hnil, hnil]

/-- **`operator>>` gives the string**, but for an empty one the target keeps what it held. -/
theorem operatorShrString_frame (h : Unreads b (p.frame ++ rest)) (val : List UInt8) :
    b.operatorShrString val = some (b.behindFrame p, if p.val = [] then val else p.val) := by
  obtain ⟨len, hlen, hvalue⟩ := readLength_frame h
  have hrest := behindLength_unreads h
  have havail : b.behindLength.readAvailable ≥ p.val.length := by
    rw [hrest.readAvailable_eq, List.length_append]
    omega
  simp only [operatorShrString, hlen, Option.bind_eq_bind, Option.bind_some, hvalue]
  by_cases hnil : p.val = []
  · have hzero : p.val.length = 0 := List.length_eq_zero_iff.mpr hnil
    rw [if_neg fun hlen => hlen.1 hzero, if_pos hnil, behindFrame_nil h hnil]
  · have hpos : p.val.length ≠ 0 := fun hzero => hnil (List.length_eq_zero_iff.mp hzero)
    rw [if_pos ⟨hpos, havail⟩, hrest.front.1, if_neg hnil]
    rfl

/-- `b >> val` and `val = b.readString()` leave the same string and the same read position. -/
def StringReadsAgree (b : ByteArray) (val : List UInt8) : Prop :=
  ∃ b₁ b₂ s, b.operatorShrString val = some (b₁, s) ∧ b.readStringPrefixed = some (b₂, s) ∧ b₁.readPos = b₂.readPos

/-- **The two ways to read a string** agree exactly when it is not empty, or the target was. -/
theorem string_reads_agree_iff (h : Unreads b (p.frame ++ rest)) (val : List UInt8) :
    StringReadsAgree b val ↔ p.val ≠ [] ∨ val = [] := by
  have hshr := operatorShrString_frame h val
  have hread := readStringPrefixed_frame h
  constructor
  · rintro ⟨b₁, b₂, s, hshr', hread', -⟩
    rw [hshr] at hshr'
    rw [hread] at hread'
    obtain ⟨-, rfl⟩ := Prod.mk.inj (Option.some.inj hread')
    obtain ⟨-, hval⟩ := Prod.mk.inj (Option.some.inj hshr')
    by_cases hnil : p.val = []
    · rw [if_pos hnil] at hval
      exact Or.inr (hval.trans hnil)
    · exact Or.inl hnil
  · intro hcond
    have hval : (if p.val = [] then val else p.val) = p.val := by
      split
      · rename_i hnil
        rcases hcond with hne | rfl
        · exact absurd hnil hne
        · exact hnil.symm
      · rfl
    rw [hval] at hshr
    exact ⟨_, _, p.val, hshr, hread, rfl⟩

/-- A string of two characters in an attached block, read over another one. -/
theorem string_reads_agree_two : StringReadsAgree (ofBytes [2, 0, 65, 66, 9] false) [67] := by
  have hframe : [2, 0, 65, 66, 9] = Payload.frame ⟨[65, 66], by decide⟩ ++ [9] := by decide
  have hunread := ofBytes_unreads [2, 0, 65, 66, 9] false (by decide)
  rw [hframe] at hunread ⊢
  exact (string_reads_agree_iff hunread [67]).mpr (Or.inl (List.cons_ne_nil 65 [66]))

/-- An empty string, read over another one. -/
theorem empty_string_not_assigned :
    Unreads (ofBytes [0, 0] true) (Payload.frame ⟨[], by decide⟩ ++ []) ∧
      ¬ StringReadsAgree (ofBytes [0, 0] true) [67] := by
  refine ⟨ofBytes_unreads [0, 0] true (by decide), ?_⟩
  rintro ⟨b₁, b₂, s, hshr, hread, -⟩
  have hshr' : (ofBytes [0, 0] true).operatorShrString [67] = some ((ofBytes [0, 0] true).behindLength, [67]) := by
    decide +kernel
  have hread' : (ofBytes [0, 0] true).readStringPrefixed = some ((ofBytes [0, 0] true).behindLength, []) := by
    decide +kernel
  rw [hshr'] at hshr
  rw [hread'] at hread
  obtain ⟨-, rfl⟩ := Prod.mk.inj (Option.some.inj hshr)
  obtain ⟨-, hs⟩ := Prod.mk.inj (Option.some.inj hread)
  cases hs

end ByteArray

end Libws.Core
