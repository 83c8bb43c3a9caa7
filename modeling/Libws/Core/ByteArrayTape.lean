import Libws.Lib.Tape
import Libws.Lib.Machine
import Libws.Core.ByteArray

/-!
# An owned, writable `ByteArray` is a byte list with a read cursor

`Owned` is the invariant of an array built by `ByteArray(n)`: it manages its own block, the block
is as long as `_capacity` says, and `_readPos ≤ _writePos ≤ _capacity`.  `Holds b t` says that
the array `b` is owned and holds the `Tape` `t`: the bytes in front of the write position, with
the read position as the cursor.

* `ofLength_holds` — the constructor;
* one `…_spec` lemma for each member function: on an array that holds `t` the call is defined,
  and the array holds what the corresponding `Tape` operation makes of `t`.
-/

set_option autoImplicit false

namespace Libws.Core

open Libws.Word

namespace ByteArray

/-- The invariant of an owned, writable array. -/
structure Owned (b : ByteArray) : Prop where
  notAttached : b.isAttached = false
  writable : b.readOnlyFlag = false
  data_length : b.data.length = b.capacity
  capacity_pos : 0 < b.capacity
  capacity_lt : b.capacity < 2 ^ 64
  read_le : b.readPos ≤ b.writePos
  write_le : b.writePos ≤ b.capacity

/-- The array is owned and holds the tape `t`. -/
structure Holds (b : ByteArray) (t : Tape UInt8) : Prop where
  owned : Owned b
  content_eq : b.content = t.content
  cursor_eq : b.readPos = t.cursor

variable {b out : ByteArray} {t u : Tape UInt8} (fresh : Nat → UInt8)

theorem Owned.content_length (h : Owned b) : b.content.length = b.writePos := by
  have := h.data_length
  have := h.write_le
  simp only [content, List.length_take]
  omega

theorem Owned.not_readOnly (h : Owned b) : b.readOnly = false := by
  simp [readOnly, h.notAttached, h.writable]

theorem Owned.readAvailable_eq (h : Owned b) : b.readAvailable = b.writePos - b.readPos :=
  sub64_of_le h.read_le (by have := h.write_le; have := h.capacity_lt; omega)

/-- The tape that an owned array holds. -/
def tape (b : ByteArray) (h : Owned b) : Tape UInt8 :=
  ⟨b.content, b.readPos, by rw [h.content_length]; exact h.read_le⟩

theorem holds_tape (h : Owned b) : Holds b (b.tape h) := ⟨h, rfl, rfl⟩

theorem Holds.writePos_eq (h : Holds b t) : b.writePos = t.content.length := by
  rw [← h.content_eq, h.owned.content_length]

theorem Holds.readAvailable_eq (h : Holds b t) :
    b.readAvailable = t.content.length - t.cursor := by
  rw [h.owned.readAvailable_eq, h.writePos_eq, h.cursor_eq]

/-- The same bytes, at a new read position inside them. -/
theorem Holds.setCursor (h : Holds b t) {p : Nat} (hp : p ≤ t.content.length) :
    Holds { b with readPos := p } (t.moveTo p) := by
  obtain ⟨hO, hc, -⟩ := h
  have hw : b.writePos = t.content.length := by rw [← hc, hO.content_length]
  exact ⟨⟨hO.notAttached, hO.writable, hO.data_length, hO.capacity_pos, hO.capacity_lt,
    by simp only [hw]; exact hp, hO.write_le⟩, hc, by simp only [Tape.moveTo]; omega⟩

/-- What stands between two positions in front of the write position. -/
theorem Holds.read_range (h : Holds b t) {off len : Nat} (hle : off + len ≤ t.content.length) :
    Block.read b.data off len = some ((t.content.drop off).take len) := by
  have hw := h.writePos_eq
  have := h.owned.write_le
  have := h.owned.data_length
  rw [Block.read_of_le (by omega), ← h.content_eq, content, List.drop_take, List.take_take,
    Nat.min_eq_left (by omega)]

/-! ## Construction -/

/-- **`ByteArray(length)` is the empty tape.** -/
theorem ofLength_holds {length : Nat} (h : length < 2 ^ 62) : Holds (ofLength length) Tape.empty := by
  have hcap : (ofLength length).capacity = if length = 0 then 4096 else length := rfl
  refine ⟨⟨rfl, rfl, by simp [ofLength], ?_, ?_, Nat.le_refl 0, Nat.zero_le _⟩, rfl, rfl⟩
  · rw [hcap]; split <;> omega
  · rw [hcap]; split <;> omega

/-! ## Writing -/

/-- Wherever growth ends, it keeps the tape and makes the room asked for. -/
theorem expand_inv {fresh : Nat → UInt8} {b' : ByteArray} (h : Holds b t) {size : Nat}
    (hrun : b.expand fresh size = some b') : Holds b' t ∧ size ≤ b'.capacity := by
  obtain ⟨hO, hc, hp⟩ := h
  obtain ⟨c, hgrow, hb'⟩ := Option.bind_eq_some_iff.mp hrun
  obtain ⟨hroom, hgrown⟩ := Block.doubleUntil_inv _ _ hgrow
  split at hb'
  · rename_i hsame
    obtain rfl := Option.some.inj hb'
    exact ⟨⟨hO, hc, hp⟩, by omega⟩
  · rename_i hother
    rw [if_neg (by simp [hO.notAttached])] at hb'
    obtain rfl := Option.some.inj hb'
    have hle : b.capacity ≤ c := by omega
    have hdata := hO.data_length
    have hwrite := hO.write_le
    refine ⟨⟨⟨hO.notAttached, hO.writable, Block.realloc_length _ _ _, Nat.lt_of_lt_of_le hO.capacity_pos hle,
      by simp only; omega, hO.read_le, Nat.le_trans hwrite hle⟩, ?_, hp⟩, hroom⟩
    rw [← hc]
    exact Block.take_realloc (m := b.writePos) fresh (by omega) (by omega)

theorem expand_spec (h : Holds b t) {size : Nat} (hsize : size ≤ 2 ^ 62) :
    ∃ b', b.expand fresh size = some b' ∧ Holds b' t ∧ size ≤ b'.capacity := by
  obtain ⟨c, hgrow, -⟩ := Block.growCap_spec size b.capacity (by omega) h.owned.capacity_pos
  have hdefined : ∃ b', b.expand fresh size = some b' := by
    by_cases hsame : c = b.capacity
    · exact ⟨b, by simp [expand, hgrow, hsame]⟩
    · exact ⟨_, by simp [expand, hgrow, hsame, h.owned.notAttached]; rfl⟩
  obtain ⟨b', hrun⟩ := hdefined
  exact ⟨b', hrun, expand_inv h hrun⟩

/-- Wherever an append ends, it appends exactly its bytes. -/
theorem appendBytes_inv {fresh : Nat → UInt8} {b' : ByteArray} (h : Holds b t) {xs : List UInt8}
    (hrun : b.appendBytes fresh xs = some b') : Holds b' (t.append xs) := by
  obtain ⟨b₁, hexp, hrun⟩ := Option.bind_eq_some_iff.mp hrun
  obtain ⟨data, hwrite, hrun⟩ := Option.bind_eq_some_iff.mp hrun
  obtain ⟨⟨hO, hc, hp⟩, -⟩ := expand_inv h hexp
  obtain ⟨hfit, -⟩ := Block.write_eq_some hwrite
  have hcap := hO.capacity_lt
  have hadd : add64 b₁.writePos xs.length = b₁.writePos + xs.length :=
    add64_of_lt (by rw [hO.data_length] at hfit; omega)
  cases hrun
  refine ⟨⟨hO.notAttached, hO.writable, ?_, hO.capacity_pos, hO.capacity_lt, ?_, ?_⟩, ?_, hp⟩
  · rw [← hO.data_length]
    exact Block.write_length hwrite
  · simp only [hadd]
    exact Nat.le_trans hO.read_le (Nat.le_add_right _ _)
  · simp only [hadd]
    rw [← hO.data_length]
    exact hfit
  · simp only [content, hadd]
    rw [Block.take_write hwrite]
    exact congrArg (· ++ xs) hc

theorem appendBytes_spec (h : Holds b t) {xs : List UInt8}
    (hsize : t.content.length + xs.length < 2 ^ 62) :
    ∃ b', b.appendBytes fresh xs = some b' ∧ Holds b' (t.append xs) := by
  have hadd : add64 b.writePos xs.length = t.content.length + xs.length := by
    rw [add64_of_lt (by rw [h.writePos_eq]; omega), h.writePos_eq]
  obtain ⟨b₁, hexp, h₁, hroom⟩ := expand_spec fresh h (Nat.le_of_lt hsize)
  have hfit : b₁.writePos + xs.length ≤ b₁.data.length := by
    rw [h₁.owned.data_length, h₁.writePos_eq]
    exact hroom
  have hdefined : ∃ b', b.appendBytes fresh xs = some b' :=
    ⟨_, by
      simp only [appendBytes, hadd, hexp, Block.write_of_le _ _ _ hfit, Option.bind_eq_bind, Option.bind_some]
      rfl⟩
  obtain ⟨b', hb'⟩ := hdefined
  exact ⟨b', hb', appendBytes_inv h hb'⟩

/-- The same for the writing functions on top of it. -/
theorem writeData_inv {fresh : Nat → UInt8} {b' : ByteArray} (h : Holds b t)
    {inData : Option (List UInt8)} (hrun : b.writeData fresh inData = some b') :
    Holds b' (t.append (inData.getD [])) := by
  cases inData with
  | none =>
    cases hrun
    simpa [Tape.append] using h
  | some xs =>
    simp only [writeData, h.owned.not_readOnly, Bool.false_or] at hrun
    cases xs with
    | nil =>
      cases hrun
      simpa [Tape.append] using h
    | cons x xs => exact appendBytes_inv h hrun

theorem writeData_spec (h : Holds b t) (inData : Option (List UInt8))
    (hsize : t.content.length + (inData.getD []).length < 2 ^ 62) :
    ∃ b', b.writeData fresh inData = some b' ∧ Holds b' (t.append (inData.getD [])) := by
  have hdefined : ∃ b', b.writeData fresh inData = some b' := by
    cases inData with
    | none => exact ⟨b, rfl⟩
    | some xs =>
      simp only [writeData, h.owned.not_readOnly, Bool.false_or]
      split
      · exact ⟨b, rfl⟩
      · obtain ⟨b', hb', -⟩ := appendBytes_spec fresh h hsize
        exact ⟨b', hb'⟩
  obtain ⟨b', hb'⟩ := hdefined
  exact ⟨b', hb', writeData_inv h hb'⟩

theorem writeEmptyData_spec (h : Holds b t) {length : Nat}
    (hsize : t.content.length + length < 2 ^ 62) :
    ∃ b', b.writeEmptyData fresh length = some b' ∧
      Holds b' (t.append (List.replicate length 0)) := by
  simp only [writeEmptyData, h.owned.not_readOnly, Bool.false_or, beq_iff_eq]
  by_cases hz : length = 0
  · subst hz
    exact ⟨b, rfl, by simpa [Tape.append] using h⟩
  · rw [if_neg hz]
    exact appendBytes_spec fresh h (by rw [List.length_replicate]; exact hsize)

theorem operatorShl_spec (h : Holds b t) (val : List UInt8)
    (hsize : t.content.length + val.length < 2 ^ 62) :
    ∃ b', b.operatorShl fresh val = some (.ok b') ∧ Holds b' (t.append val) := by
  obtain ⟨b', hb', h'⟩ := appendBytes_spec fresh h hsize
  exact ⟨b', by simp [operatorShl, h.owned.not_readOnly, hb'], h'⟩

/-- A source of `operator<<`: an array whose bytes can be read. -/
abbrev ReadableArray := { b : ByteArray // b.writePos ≤ b.data.length }

theorem operatorShlArray_eq (ho : out.writePos ≤ out.data.length) :
    b.operatorShlArray fresh out = b.writeData fresh (some out.content) := by
  have hread : Block.read out.data 0 out.size = some out.content := by
    rw [size, Block.read_of_le (by omega), List.drop_zero]
    rfl
  simp only [operatorShlArray, hread, Option.bind_eq_bind, Option.bind_some]

theorem operatorShlArray_spec (h : Holds b t) (ho : out.writePos ≤ out.data.length)
    (hsize : t.content.length + out.content.length < 2 ^ 62) :
    ∃ b', b.operatorShlArray fresh out = some b' ∧ Holds b' (t.append out.content) := by
  rw [operatorShlArray_eq fresh ho]
  exact writeData_spec fresh h (some out.content) hsize

/-- The bytes `operator<<` writes for a string: two bytes of length, then so many characters. -/
def stringBytes (s : List UInt8) : List UInt8 :=
  leBytes 2 (s.length % 2 ^ 16) ++ s.take (s.length % 2 ^ 16)

theorem operatorShlString_spec (h : Holds b t) {val : List UInt8}
    (hsize : t.content.length + (stringBytes val).length < 2 ^ 62) :
    ∃ b', b.operatorShlString fresh val = some (.ok b') ∧ Holds b' (t.append (stringBytes val)) := by
  simp only [stringBytes, List.length_append] at hsize
  obtain ⟨b₁, hb₁, h₁⟩ := operatorShl_spec fresh h (leBytes 2 (val.length % 2 ^ 16))
    (by omega)
  obtain ⟨b₂, hb₂, h₂⟩ := writeData_spec fresh h₁
    (some (val.take (val.length % 2 ^ 16)))
    (by simp only [Tape.append, List.length_append, Option.getD_some]; omega)
  refine ⟨b₂, ?_, ?_⟩
  · simp only [operatorShlString, hb₁, Option.bind_eq_bind, Option.bind_some, hb₂, Option.map_some]
  · have happ : (t.append (leBytes 2 (val.length % 2 ^ 16))).append
        (val.take (val.length % 2 ^ 16)) = t.append (stringBytes val) :=
      Tape.ext (by simp [Tape.append, stringBytes]) rfl
    rw [← happ]
    exact h₂

/-! ## Reading -/

theorem readPosition_spec (h : Holds b t) (value : Nat) :
    Holds (b.readPosition value) (t.moveTo value) := by
  have hw := h.writePos_eq
  have hpos : (if value > b.writePos then b.writePos else value) = min value t.content.length := by
    rw [hw]; split <;> omega
  have hmove : t.moveTo value = t.moveTo (min value t.content.length) :=
    Tape.ext rfl (by simp only [Tape.moveTo]; omega)
  simp only [readPosition, hpos]
  rw [hmove]
  exact h.setCursor (Nat.min_le_right _ _)

theorem advance_zero (t : Tape UInt8) : t.advance 0 = t :=
  Tape.ext rfl (by have := t.cursor_le; simp only [Tape.advance, Tape.moveTo]; omega)

/-- Seeking forward inside the bytes. -/
theorem seek_spec (h : Holds b t) {n : Nat} (hn : t.cursor + n ≤ t.content.length) :
    Holds (b.seek n) (t.advance n) := by
  have hcap := h.owned.capacity_lt
  have hwle := h.owned.write_le
  have hw := h.writePos_eq
  unfold seek
  split
  · rw [h.cursor_eq, Int.toNat_natCast, add64_of_lt (by omega)]
    exact readPosition_spec h _
  · rename_i hpos
    have hzero : n = 0 := by omega
    subst hzero
    rw [if_neg (by omega), advance_zero]
    exact h

/-- Seeking backward over bytes that were read. -/
theorem seek_back_spec (h : Holds b t) {n : Nat} (hpos : 0 < n) (hn : n ≤ t.cursor) :
    Holds (b.seek (-n)) (t.moveTo (t.cursor - n)) := by
  have hcur := t.cursor_le
  have hcap := h.owned.capacity_lt
  have hwle := h.owned.write_le
  have hw := h.writePos_eq
  have hback : (- -(n : Int)).toNat = n := by omega
  rw [seek, if_neg (by omega), if_pos (by omega), hback, h.cursor_eq, sub64_of_le hn (by omega)]
  exact readPosition_spec h _

/-- Reading `n` available bytes at the cursor. -/
theorem Holds.read_cursor (h : Holds b t) {n : Nat} (hn : t.cursor + n ≤ t.content.length) :
    Block.read b.data b.readPos n = some (t.peek n) ∧
      Holds { b with readPos := add64 b.readPos n } (t.advance n) := by
  have hcap := h.owned.capacity_lt
  have hwle := h.owned.write_le
  have hw := h.writePos_eq
  refine ⟨?_, ?_⟩
  · rw [h.cursor_eq, h.read_range hn]
    rfl
  · rw [h.cursor_eq, add64_of_lt (by omega)]
    exact h.setCursor hn

/-- The outcome of a typed read of `n` bytes: all of them, or nothing moves. -/
def typedRead (t : Tape UInt8) (n : Nat) (old : List UInt8) : Tape UInt8 × List UInt8 :=
  if t.cursor + n ≤ t.content.length then (t.advance n, t.peek n) else (t, old)

theorem readNumber_spec (h : Holds b t) (typeSize : Nat) :
    ∃ b', b.readNumber typeSize =
        some (b', (typedRead t typeSize (List.replicate typeSize 0)).2) ∧
      Holds b' (typedRead t typeSize (List.replicate typeSize 0)).1 := by
  have hcur := t.cursor_le
  simp only [readNumber, typedRead, h.readAvailable_eq]
  by_cases hle : t.cursor + typeSize ≤ t.content.length
  · obtain ⟨hread, hadv⟩ := h.read_cursor hle
    exact ⟨_, by rw [if_pos (by omega), hread, if_pos hle]; rfl, by rw [if_pos hle]; exact hadv⟩
  · exact ⟨b, by rw [if_neg (by omega), if_neg hle], by rw [if_neg hle]; exact h⟩

theorem operatorShr_spec (h : Holds b t) (val : List UInt8) :
    ∃ b', b.operatorShr val = some (b', (typedRead t val.length val).2) ∧
      Holds b' (typedRead t val.length val).1 := by
  have hcur := t.cursor_le
  simp only [operatorShr, typedRead, h.readAvailable_eq]
  by_cases hle : t.cursor + val.length ≤ t.content.length
  · obtain ⟨hread, hadv⟩ := h.read_cursor hle
    exact ⟨_, by rw [if_pos (by omega), hread, if_pos hle]; rfl, by rw [if_pos hle]; exact hadv⟩
  · exact ⟨b, by rw [if_neg (by omega), if_neg hle], by rw [if_neg hle]; exact h⟩

/-- What is left to read, or `length` if that is less; everything for `length = 0`. -/
def readLength (t : Tape UInt8) (length : Nat) : Nat :=
  if length = 0 then t.content.length - t.cursor else min length (t.content.length - t.cursor)

theorem readData_spec (h : Holds b t) {buf : List UInt8} {length : Nat}
    (hbuf : readLength t length ≤ buf.length) :
    ∃ b', b.readData (some buf) length =
        some (b', some (Block.overwrite buf (t.peek (readLength t length))), readLength t length) ∧
      Holds b' (t.advance (readLength t length)) := by
  have hcur := t.cursor_le
  have hlen : (if length = 0 ∨ length > b.readAvailable then b.readAvailable else length) =
      readLength t length := by
    rw [h.readAvailable_eq, readLength]
    by_cases hz : length = 0
    · rw [if_pos (Or.inl hz), if_pos hz]
    · rw [if_neg hz]; split <;> omega
  have hle : t.cursor + readLength t length ≤ t.content.length := by
    unfold readLength; split <;> omega
  simp only [readData, hlen]
  by_cases hpos : readLength t length > 0
  · obtain ⟨hread, hadv⟩ := h.read_cursor hle
    have hpeek : (t.peek (readLength t length)).length = readLength t length := by
      rw [Tape.peek_length]; omega
    have hwrite := Block.write_front buf (t.peek (readLength t length))
      (by rw [hpeek]; exact hbuf)
    refine ⟨_, ?_, hadv⟩
    rw [if_pos hpos]
    simp only [hread, hwrite, Option.bind_eq_bind, Option.bind_some]
  · have hz : readLength t length = 0 := by omega
    rw [hz, advance_zero]
    exact ⟨b, by simp [Tape.peek, Block.overwrite], h⟩

theorem readString_spec (h : Holds b t) (length : Nat) :
    ∃ b', b.readString length = some (b', t.peek length) ∧ Holds b' (t.advance length) := by
  have hcur := t.cursor_le
  have hpeek : t.peek (min length (t.content.length - t.cursor)) = t.peek length := by
    simp only [Tape.peek]
    rw [← Tape.unread_length, ← List.take_take, List.take_length]
  have hadv : t.advance (min length (t.content.length - t.cursor)) = t.advance length :=
    Tape.ext rfl (by simp only [Tape.advance, Tape.moveTo]; omega)
  have hlen : (if length > b.readAvailable then b.readAvailable else length) =
      min length (t.content.length - t.cursor) := by
    rw [h.readAvailable_eq]; split <;> omega
  simp only [readString, hlen]
  rw [← hpeek, ← hadv]
  generalize hn : min length (t.content.length - t.cursor) = n
  by_cases hpos : n > 0
  · obtain ⟨hread, hmove⟩ := h.read_cursor (n := n) (by omega)
    exact ⟨_, by rw [if_pos hpos, hread]; rfl, hmove⟩
  · have hz : n = 0 := by omega
    subst hz
    rw [advance_zero]
    exact ⟨b, by simp [Tape.peek], h⟩

theorem readBytes_spec (h : Holds b t) (ho : Holds out u) {length : Nat}
    (hsize : u.content.length + (t.peek length).length < 2 ^ 62) :
    ∃ b' out', b.readBytes fresh out length = some (b', out', (t.peek length).length) ∧
      Holds b' (t.advance length) ∧ Holds out' (u.append (t.peek length)) := by
  have hcur := t.cursor_le
  by_cases hpos : length > 0
  · have hlen : (if length > b.readAvailable then b.readAvailable else length) =
        (t.peek length).length := by
      rw [h.readAvailable_eq, Tape.peek_length]; split <;> omega
    have hpeek : t.peek (t.peek length).length = t.peek length := by
      simp only [Tape.peek]
      rw [List.length_take, ← List.take_take, List.take_length]
    have hadv : t.advance (t.peek length).length = t.advance length :=
      Tape.ext rfl (by simp only [Tape.advance, Tape.moveTo, Tape.peek_length]; omega)
    obtain ⟨hread, hmove⟩ := h.read_cursor (n := (t.peek length).length)
      (by rw [Tape.peek_length]; omega)
    rw [hpeek] at hread
    rw [hadv] at hmove
    obtain ⟨out', hout', ho'⟩ := appendBytes_spec fresh ho hsize
    refine ⟨_, out', ?_, hmove, ho'⟩
    simp only [readBytes, if_pos hpos, hlen, hread, hout', Option.bind_eq_bind, Option.bind_some]
  · have hz : length = 0 := by omega
    subst hz
    rw [advance_zero]
    exact ⟨b, out, by simp [readBytes, Tape.peek], h, by simpa [Tape.peek, Tape.append] using ho⟩

/-! ## Cutting -/

theorem clear_spec (h : Holds b t) : Holds b.clear Tape.empty := by
  obtain ⟨hO, -, -⟩ := h
  exact ⟨⟨hO.notAttached, hO.writable, hO.data_length, hO.capacity_pos, hO.capacity_lt,
    Nat.le_refl 0, Nat.zero_le _⟩, rfl, rfl⟩

theorem truncate_spec (h : Holds b t) {resetSize : Nat} (hsize : resetSize < 2 ^ 62) :
    Holds (b.truncate fresh resetSize) Tape.empty := by
  obtain ⟨hO, -, -⟩ := h
  unfold truncate
  by_cases hz : resetSize = 0
  · rw [if_neg (by simp [hz])]
    exact ⟨⟨hO.notAttached, hO.writable, hO.data_length, hO.capacity_pos, hO.capacity_lt,
      Nat.le_refl 0, Nat.zero_le _⟩, rfl, rfl⟩
  · rw [if_pos ⟨hz, by simp [hO.notAttached]⟩]
    exact ⟨⟨hO.notAttached, hO.writable, Block.malloc_length _ _, by simp only; omega,
      by simp only; omega, Nat.le_refl 0, Nat.zero_le _⟩, rfl, rfl⟩

/-- The buffer, if there is one, has room for `n` bytes. -/
def HasRoom (out : Option (List UInt8)) (n : Nat) : Prop := ∀ buf ∈ out, n ≤ buf.length

theorem copyOut_spec {out : Option (List UInt8)} {xs : List UInt8} (h : HasRoom out xs.length) :
    copyOut out xs = some (out.map (Block.overwrite · xs)) := by
  cases out with
  | none => rfl
  | some buf => simp only [copyOut, Block.write_front buf xs (h buf rfl), Option.map_some]

theorem map_overwrite_nil (out : Option (List UInt8)) : out.map (Block.overwrite · []) = out := by
  cases out <;> simp [Block.overwrite]

theorem dropHead_spec (h : Holds b t) (length : Nat) (hlt : length < t.content.length) :
    ∃ b', b.dropHead length = some b' ∧ Holds b' (t.cutHead length) := by
  have hw := h.writePos_eq
  obtain ⟨hO, hc, hp⟩ := h
  have hdl := hO.data_length
  have hwle := hO.write_le
  have hcap := hO.capacity_lt
  have hrle := hO.read_le
  have hsub : sub64 b.writePos length = b.writePos - length := sub64_of_le (by omega) (by omega)
  have hpos : (if b.readPos > length then sub64 b.readPos length else 0) = b.readPos - length := by
    split
    · exact sub64_of_le (by omega) (by omega)
    · omega
  have hmove := Block.move_of_le b.data 0 length (b.writePos - length)
    (by omega) (by omega)
  rw [List.take_zero, List.nil_append, Nat.zero_add] at hmove
  have hrun : b.dropHead length = some { b with
      data := (b.data.drop length).take (b.writePos - length) ++ b.data.drop (b.writePos - length),
      writePos := b.writePos - length, readPos := b.readPos - length } := by
    simp only [dropHead, hsub, hpos, hmove, Option.bind_eq_bind, Option.bind_some]
  refine ⟨_, hrun, ⟨hO.notAttached, hO.writable, ?_, hO.capacity_pos, hcap, ?_, ?_⟩, ?_, ?_⟩
  · simp only [List.length_append, List.length_take, List.length_drop]
    omega
  · simp only
    omega
  · simp only
    omega
  · simp only [content, Tape.cutHead]
    rw [List.take_append_of_le_length (by simp; omega), List.take_take, Nat.min_self, ← hc, content,
      List.drop_take]
  · simp only [Tape.cutHead, hp]

/-- What stands in front of the write position, up to `length` bytes. -/
theorem Holds.read_head (h : Holds b t) {length : Nat} (hle : length ≤ b.writePos) :
    Block.read b.data 0 length = some (t.content.take length) := by
  rw [h.read_range (by rw [← h.writePos_eq]; omega), List.drop_zero]

theorem Holds.read_all (h : Holds b t) : Block.read b.data 0 b.writePos = some t.content := by
  rw [h.read_head (Nat.le_refl _), h.writePos_eq, List.take_length]

theorem Holds.read_tail (h : Holds b t) {length : Nat} (hlt : length < b.writePos) :
    sub64 b.writePos length = t.content.length - length ∧
      Block.read b.data (sub64 b.writePos length) length =
        some (t.content.drop (t.content.length - length)) := by
  have hw := h.writePos_eq
  have hwle := h.owned.write_le
  have hcap := h.owned.capacity_lt
  have hsub : sub64 b.writePos length = t.content.length - length := by
    rw [sub64_of_le (by omega) (by omega), hw]
  refine ⟨hsub, ?_⟩
  rw [hsub, h.read_range (by omega), List.take_of_length_le (by simp; omega)]

theorem cutHead_nothing (t : Tape UInt8) {length : Nat} (h : t.content.length = 0 ∨ length = 0) :
    t.cutHead length = t ∧ t.content.take length = [] := by
  have hcur := t.cursor_le
  rcases h with hz | hz
  · have hnil : t.content = [] := List.length_eq_zero_iff.mp hz
    refine ⟨Tape.ext (by simp [Tape.cutHead, hnil]) ?_, by simp [hnil]⟩
    simp only [Tape.cutHead]
    omega
  · subst hz
    exact ⟨rfl, List.take_zero⟩

theorem cutHead_everything (t : Tape UInt8) {length : Nat} (h : t.content.length ≤ length) :
    t.cutHead length = Tape.empty ∧ t.content.take length = t.content := by
  have hcur := t.cursor_le
  refine ⟨Tape.ext (by simpa [Tape.cutHead, Tape.empty] using h) ?_, List.take_of_length_le h⟩
  simp only [Tape.cutHead, Tape.empty]
  omega

theorem cutTail_nothing (t : Tape UInt8) (length : Nat) (h : t.content.length = 0) :
    t.cutTail length = t ∧ t.content.drop (t.content.length - length) = [] := by
  have hcur := t.cursor_le
  have hnil : t.content = [] := List.length_eq_zero_iff.mp h
  refine ⟨Tape.ext (by simp [Tape.cutTail, hnil]) ?_, by simp [hnil]⟩
  simp only [Tape.cutTail]
  omega

theorem cutTail_everything (t : Tape UInt8) {length : Nat} (h : t.content.length ≤ length) :
    t.cutTail length = Tape.empty ∧ t.content.drop (t.content.length - length) = t.content := by
  have hz : t.content.length - length = 0 := by omega
  refine ⟨Tape.ext ?_ ?_, by rw [hz, List.drop_zero]⟩
  · simp only [Tape.cutTail, Tape.empty, hz, List.take_zero]
  · simp only [Tape.cutTail, Tape.empty, hz, Nat.min_zero]

theorem cutHead_spec (h : Holds b t) (length : Nat) (out : Option (List UInt8))
    (hroom : HasRoom out (t.content.take length).length) :
    ∃ b', b.cutHead length out = some (b', out.map (Block.overwrite · (t.content.take length))) ∧
      Holds b' (t.cutHead length) := by
  have hw := h.writePos_eq
  have hcopy := copyOut_spec hroom
  by_cases hnone : b.writePos = 0 ∨ length = 0
  · obtain ⟨hsame, hnil⟩ := cutHead_nothing t (hw ▸ hnone)
    rw [hsame, hnil, map_overwrite_nil]
    exact ⟨b, by rw [cutHead, if_pos hnone], h⟩
  · by_cases hall : length ≥ b.writePos
    · obtain ⟨hempty, htake⟩ := cutHead_everything t (hw ▸ hall)
      rw [htake] at hcopy ⊢
      rw [hempty]
      refine ⟨b.clear, ?_, clear_spec h⟩
      simp only [cutHead, if_neg hnone, if_pos hall, h.read_all, hcopy, Option.bind_eq_bind, Option.bind_some]
    · obtain ⟨b', hb', h'⟩ := dropHead_spec h length (by omega)
      refine ⟨b', ?_, h'⟩
      simp only [cutHead, if_neg hnone, if_neg hall, h.read_head (Nat.le_of_lt (Nat.lt_of_not_le hall)),
        hcopy, hb', Option.bind_eq_bind, Option.bind_some]

theorem cutHeadArray_spec (h : Holds b t) (ho : Holds out u) {length : Nat}
    (hsize : u.content.length + (t.content.take length).length < 2 ^ 62) :
    ∃ b' out', b.cutHeadArray fresh length out = some (b', out') ∧
      Holds b' (t.cutHead length) ∧ Holds out' (u.append (t.content.take length)) := by
  have hw := h.writePos_eq
  obtain ⟨out', hout', ho'⟩ := writeData_spec fresh ho
    (some (t.content.take length)) hsize
  simp only [Option.getD_some] at ho'
  by_cases hnone : b.writePos = 0 ∨ length = 0
  · obtain ⟨hsame, hnil⟩ := cutHead_nothing t (hw ▸ hnone)
    rw [hsame, hnil]
    exact ⟨b, out, by rw [cutHeadArray, if_pos hnone], h, by simpa [Tape.append] using ho⟩
  · by_cases hall : length ≥ b.writePos
    · obtain ⟨hempty, htake⟩ := cutHead_everything t (hw ▸ hall)
      rw [htake] at hout' ho' ⊢
      rw [hempty]
      refine ⟨b.clear, out', ?_, clear_spec h, ho'⟩
      simp only [cutHeadArray, if_neg hnone, if_pos hall, h.read_all, hout', Option.bind_eq_bind,
        Option.bind_some]
    · obtain ⟨b', hb', h'⟩ := dropHead_spec h length (by omega)
      refine ⟨b', out', ?_, h', ho'⟩
      simp only [cutHeadArray, if_neg hnone, if_neg hall,
        h.read_head (Nat.le_of_lt (Nat.lt_of_not_le hall)), hout', hb', Option.bind_eq_bind, Option.bind_some]

theorem dropTail_spec (h : Holds b t) (length : Nat) :
    Holds (b.dropTail (t.content.length - length)) (t.cutTail length) := by
  have hw := h.writePos_eq
  have hcur := t.cursor_le
  obtain ⟨hO, hc, hp⟩ := h
  have hwle := hO.write_le
  have hpos : (if b.readPos > t.content.length - length then t.content.length - length
      else b.readPos) = min t.cursor (t.content.length - length) := by
    rw [hp]; split <;> omega
  refine ⟨⟨hO.notAttached, hO.writable, hO.data_length, hO.capacity_pos, hO.capacity_lt, ?_, ?_⟩, ?_, hpos⟩
  · simp only [dropTail, hpos]
    omega
  · simp only [dropTail]
    omega
  · simp only [content, dropTail, Tape.cutTail]
    rw [← hc, content, List.take_take, Nat.min_eq_left]
    simp only [List.length_take]
    omega

theorem cutTail_spec (h : Holds b t) {length : Nat} {out : Option (List UInt8)}
    (hroom : HasRoom out (t.content.drop (t.content.length - length)).length) :
    ∃ b', b.cutTail length out =
        some (b', out.map (Block.overwrite · (t.content.drop (t.content.length - length)))) ∧
      Holds b' (t.cutTail length) := by
  have hw := h.writePos_eq
  have hcopy := copyOut_spec hroom
  by_cases hnone : b.writePos = 0
  · obtain ⟨hsame, hnil⟩ := cutTail_nothing t length (hw ▸ hnone)
    rw [hsame, hnil, map_overwrite_nil]
    exact ⟨b, by rw [cutTail, if_pos hnone], h⟩
  · by_cases hall : length ≥ b.writePos
    · obtain ⟨hempty, hdrop⟩ := cutTail_everything t (hw ▸ hall)
      rw [hdrop] at hcopy ⊢
      rw [hempty]
      refine ⟨b.clear, ?_, clear_spec h⟩
      simp only [cutTail, if_neg hnone, if_pos hall, h.read_all, hcopy, Option.bind_eq_bind, Option.bind_some]
    · obtain ⟨hsub, hread⟩ := h.read_tail (Nat.lt_of_not_le hall)
      rw [hsub] at hread
      refine ⟨_, ?_, dropTail_spec h length⟩
      simp only [cutTail, if_neg hnone, if_neg hall, hsub, hread, hcopy, Option.bind_eq_bind,
        Option.bind_some]

theorem cutTailArray_spec (h : Holds b t) (ho : Holds out u) {length : Nat}
    (hsize : u.content.length + (t.content.drop (t.content.length - length)).length < 2 ^ 62) :
    ∃ b' out', b.cutTailArray fresh length out = some (b', out') ∧ Holds b' (t.cutTail length) ∧
      Holds out' (u.append (t.content.drop (t.content.length - length))) := by
  have hw := h.writePos_eq
  obtain ⟨out', hout', ho'⟩ := writeData_spec fresh ho
    (some (t.content.drop (t.content.length - length))) hsize
  simp only [Option.getD_some] at ho'
  by_cases hnone : b.writePos = 0
  · obtain ⟨hsame, hnil⟩ := cutTail_nothing t length (hw ▸ hnone)
    rw [hsame, hnil]
    exact ⟨b, out, by rw [cutTailArray, if_pos hnone], h, by simpa [Tape.append] using ho⟩
  · by_cases hall : length ≥ b.writePos
    · obtain ⟨hempty, hdrop⟩ := cutTail_everything t (hw ▸ hall)
      rw [hdrop] at hout' ho' ⊢
      rw [hempty]
      refine ⟨b.clear, out', ?_, clear_spec h, ho'⟩
      simp only [cutTailArray, if_neg hnone, if_pos hall, h.read_all, hout', Option.bind_eq_bind,
        Option.bind_some]
    · obtain ⟨hsub, hread⟩ := h.read_tail (Nat.lt_of_not_le hall)
      rw [hsub] at hread
      refine ⟨_, out', ?_, dropTail_spec h length, ho'⟩
      simp only [cutTailArray, if_neg hnone, if_neg hall, hsub, hread, hout', Option.bind_eq_bind,
        Option.bind_some]

end ByteArray

end Libws.Core
