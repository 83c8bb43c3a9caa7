import Libws.Lib.Block
import Libws.Lib.Word

/-!
# `ws::core::RingBuffer`

Model of `include/ws/core/RingBuffer.h` and `wsCore/src/RingBuffer.cpp`, with the conventions of
`Libws.Core.ByteArray`: checked access to the block, `none` for a call without a defined outcome,
`size_t` arithmetic modulo `2 ^ 64`, allocation that succeeds and leaves `fresh` in the bytes it adds.

* `RInv` — the invariant; `content` — the bytes written and not yet read, in order;
* `Holds rb q` — the buffer is well formed and holds the byte queue `q`;
* `readData_spec`, `expand_spec`, `writeData_spec`, `truncate_spec` — what each function does
  to the queue.
-/

set_option autoImplicit false

namespace Libws.Core

open Libws.Word

structure RingBuffer where
  data : List UInt8
  capacity : Nat
  readPos : Nat
  writePos : Nat
  deriving DecidableEq, Repr

namespace RingBuffer

/-- `RingBuffer()`. -/
def new : RingBuffer :=
  { data := List.replicate 4096 0, capacity := 4096, readPos := 0, writePos := 0 }

def used (rb : RingBuffer) : Nat :=
  if rb.readPos ≤ rb.writePos then sub64 rb.writePos rb.readPos
  else add64 (sub64 rb.capacity rb.readPos) rb.writePos

def available (rb : RingBuffer) : Nat := sub64 (sub64 rb.capacity rb.used) 1

def truncate (fresh : Nat → UInt8) (rb : RingBuffer) (resize : Bool) : RingBuffer :=
  let rb := if resize then { rb with data := Block.malloc fresh 4096, capacity := 4096 } else rb
  { rb with readPos := 0, writePos := 0 }

/-- The bytes at `outData` afterwards, and the count returned. -/
def readData (rb : RingBuffer) (outData : Option (List UInt8)) (length : Nat) :
    Option (RingBuffer × Option (List UInt8) × Nat) :=
  match outData with
  | none => some (rb, none, 0)
  | some out =>
    let max := rb.used
    let length := if length = 0 ∨ length > max then max else length
    if length > 0 then do
      let tmp := min length (sub64 rb.capacity rb.readPos)
      let xs ← Block.read rb.data rb.readPos tmp
      let out ← Block.write out 0 xs
      let out ← (if length > tmp then (Block.read rb.data 0 (length - tmp)).bind (Block.write out tmp)
        else some out)
      some ({ rb with readPos := add64 rb.readPos length % rb.capacity }, some out, length)
    else some (rb, some out, length)

def expand (fresh : Nat → UInt8) (rb : RingBuffer) (size : Nat) : Option RingBuffer := do
  let newCap ← Block.growCap size rb.capacity
  if newCap ≠ rb.capacity then
    let data := Block.realloc fresh rb.data newCap
    if rb.readPos > rb.writePos then
      let tmp := sub64 rb.capacity rb.readPos
      let data ← Block.move data (sub64 newCap tmp) rb.readPos tmp
      some { rb with data := data, readPos := sub64 newCap tmp, capacity := newCap }
    else some { rb with data := data, capacity := newCap }
  else some rb

def writeData (fresh : Nat → UInt8) (rb : RingBuffer) (inData : Option (List UInt8)) :
    Option RingBuffer :=
  match inData with
  | none => some rb
  | some xs =>
    if xs.length = 0 then some rb
    else do
      let ava := rb.available
      let rb ← (if xs.length > ava then rb.expand fresh (add64 (sub64 xs.length ava) rb.capacity)
        else some rb)
      let tmp := min xs.length (sub64 rb.capacity rb.writePos)
      let data ← Block.write rb.data rb.writePos (xs.take tmp)
      let data ← (if xs.length > tmp then Block.write data 0 (xs.drop tmp) else some data)
      some { rb with data := data, writePos := add64 rb.writePos xs.length % rb.capacity }

/-- `operator<<(const T&)`. -/
def operatorShl (fresh : Nat → UInt8) (rb : RingBuffer) (val : List UInt8) : Option RingBuffer :=
  rb.writeData fresh (some val)

/-- `operator<<(const std::string&)`. -/
def operatorShlString (fresh : Nat → UInt8) (rb : RingBuffer) (val : List UInt8) : Option RingBuffer := do
  let length := val.length % 2 ^ 16
  let rb ← rb.writeData fresh (some (leBytes 2 length))
  rb.writeData fresh (some val)

/-- `readNumber<T>()` for a type of `typeSize` bytes. -/
def readNumber (rb : RingBuffer) (typeSize : Nat) : Option (RingBuffer × List UInt8) :=
  (rb.readData (some (List.replicate typeSize 0)) typeSize).map fun (rb, value, _) => (rb, value.getD [])

/-- `operator>>(T&)`; the target's old representation in, its new one out. -/
def operatorShr (rb : RingBuffer) (val : List UInt8) : Option (RingBuffer × List UInt8) :=
  (rb.readData (some val) val.length).map fun (rb, val, _) => (rb, val.getD [])

/-- `readString(size_t)`: a string of `length` zeros, filled and then resized to the count read. -/
def readString (rb : RingBuffer) (length : Nat) : Option (RingBuffer × List UInt8) :=
  (rb.readData (some (List.replicate length 0)) length).map fun (rb, value, count) =>
    (rb, (value.getD []).take count ++ List.replicate (count - (value.getD []).length) 0)

/-- `readString()`: a string with a prefix of 2 bytes. -/
def readStringPrefixed (rb : RingBuffer) : Option (RingBuffer × List UInt8) := do
  let (rb, len) ← rb.readNumber 2
  rb.readString (leNat len)

/-- `operator>>(std::string&)`; the target's old value in, its new one out. -/
def operatorShrString (rb : RingBuffer) (_val : List UInt8) : Option (RingBuffer × List UInt8) :=
  rb.readStringPrefixed

/-! ## Invariant and content -/

structure RInv (rb : RingBuffer) : Prop where
  data_length : rb.data.length = rb.capacity
  capacity_lt : rb.capacity < 2 ^ 63
  read_lt : rb.readPos < rb.capacity
  write_lt : rb.writePos < rb.capacity

/-- The bytes from position `r` to position `w`, around the end of the block. -/
def around (data : List UInt8) (r w : Nat) : List UInt8 :=
  if r ≤ w then (data.take w).drop r else data.drop r ++ data.take w

/-- The bytes written and not yet read. -/
def content (rb : RingBuffer) : List UInt8 := around rb.data rb.readPos rb.writePos

/-- The buffer is well formed and holds the queue `q`. -/
structure Holds (rb : RingBuffer) (q : List UInt8) : Prop where
  inv : RInv rb
  content_eq : rb.content = q

variable {rb : RingBuffer} {q : List UInt8} (fresh : Nat → UInt8)

theorem RInv.used_eq (h : RInv rb) : rb.used = rb.content.length := by
  obtain ⟨hd, hc, hr, hw⟩ := h
  unfold used content around
  split
  · rw [sub64_of_le (by omega) (by omega)]
    simp only [List.length_drop, List.length_take]
    omega
  · rw [sub64_of_le (by omega) (by omega), add64_of_lt (by omega)]
    simp only [List.length_append, List.length_drop, List.length_take]
    omega

theorem RInv.content_lt (h : RInv rb) : rb.content.length < rb.capacity := by
  obtain ⟨hd, hc, hr, hw⟩ := h
  unfold content around
  split
  · simp only [List.length_drop, List.length_take]
    omega
  · simp only [List.length_append, List.length_drop, List.length_take]
    omega

theorem Holds.used_eq (h : Holds rb q) : rb.used = q.length := by
  rw [h.inv.used_eq, h.content_eq]

theorem Holds.length_lt (h : Holds rb q) : q.length < rb.capacity := by
  rw [← h.content_eq]
  exact h.inv.content_lt

theorem Holds.available_eq (h : Holds rb q) : rb.available = rb.capacity - q.length - 1 := by
  have hlt := h.length_lt
  have hcap := h.inv.capacity_lt
  rw [available, h.used_eq, sub64_of_le (a := rb.capacity) (by omega) (by omega),
    sub64_of_le (by omega) (by omega)]

/-- One cell is always kept free. -/
theorem Holds.used_add_available (h : Holds rb q) : rb.used + rb.available + 1 = rb.capacity := by
  have hlt := h.length_lt
  rw [h.used_eq, h.available_eq]
  omega

theorem content_reset {rb : RingBuffer} (hr : rb.readPos = 0) (hw : rb.writePos = 0) :
    rb.content = [] := by
  simp [content, around, hr, hw]

theorem new_holds : Holds new [] :=
  ⟨⟨List.length_replicate, by decide, by decide, by decide⟩, content_reset rfl rfl⟩

theorem truncate_spec (h : Holds rb q) (resize : Bool) : Holds (rb.truncate fresh resize) [] := by
  obtain ⟨⟨hd, hc, hr, hw⟩, -⟩ := h
  cases resize with
  | false =>
    exact ⟨⟨hd, hc, Nat.lt_of_le_of_lt (Nat.zero_le _) hr, Nat.lt_of_le_of_lt (Nat.zero_le _) hr⟩,
      content_reset rfl rfl⟩
  | true =>
    exact ⟨⟨Block.malloc_length _ _, (by decide : 4096 < 2 ^ 63), (by decide : 0 < 4096),
      (by decide : 0 < 4096)⟩, content_reset rfl rfl⟩

/-! ## Reading -/

/-- The bytes handed out by a read: the front of the queue, all of it for `length = 0`. -/
def readLength (q : List UInt8) (length : Nat) : Nat :=
  if length = 0 then q.length else min length q.length

/-- The two pieces of a read of `n` bytes: up to the end of the block, and from its start. -/
theorem RInv.read_pieces (h : RInv rb) {n tmp : Nat} (hn : n ≤ rb.content.length)
    (htmp : tmp = min n (rb.capacity - rb.readPos)) :
    Block.read rb.data rb.readPos tmp = some (rb.content.take tmp) ∧
      (n > tmp → Block.read rb.data 0 (n - tmp) = some ((rb.content.take n).drop tmp)) := by
  have hlt := h.content_lt
  obtain ⟨hd, hc, hr, hw⟩ := h
  rw [Block.read_of_le (by omega)]
  unfold content around at hn ⊢
  split at hn <;> rename_i hrw
  · simp only [List.length_drop, List.length_take] at hn
    have hwhole : tmp = n := by omega
    rw [if_pos hrw, hwhole, List.drop_take, List.take_take, Nat.min_eq_left (by omega)]
    exact ⟨rfl, fun hlt => absurd hlt (Nat.lt_irrefl n)⟩
  · simp only [List.length_append, List.length_drop, List.length_take] at hn
    rw [if_neg hrw, List.take_append_of_le_length (by simp; omega)]
    refine ⟨rfl, fun hgt => ?_⟩
    have hend : tmp = (rb.data.drop rb.readPos).length := by simp; omega
    rw [Block.read_of_le (by omega), List.drop_zero, hend, List.drop_take, List.drop_left,
      List.take_take, Nat.min_eq_left (by simp; omega)]

/-- The read position after a read of `n` bytes. -/
theorem RInv.content_advance (h : RInv rb) {n : Nat} (hn : n ≤ rb.content.length) :
    around rb.data ((rb.readPos + n) % rb.capacity) rb.writePos = rb.content.drop n := by
  obtain ⟨hd, hc, hr, hw⟩ := h
  unfold content around at hn ⊢
  split at hn <;> rename_i hrw
  · simp only [List.length_drop, List.length_take] at hn
    rw [Nat.mod_eq_of_lt (by omega), if_pos (by omega), if_pos hrw, List.drop_drop]
  · simp only [List.length_append, List.length_drop, List.length_take] at hn
    rw [if_neg hrw]
    by_cases hwrap : rb.readPos + n < rb.capacity
    · rw [Nat.mod_eq_of_lt hwrap, if_neg (by omega), List.drop_append_of_le_length (by simp; omega),
        List.drop_drop]
    · have hmod : (rb.readPos + n) % rb.capacity = rb.readPos + n - rb.capacity := by
        rw [Nat.mod_eq_sub_mod (by omega), Nat.mod_eq_of_lt (by omega)]
      have hgone : (rb.data.drop rb.readPos).drop n = [] := List.drop_of_length_le (by simp; omega)
      rw [hmod, if_pos (by omega), List.drop_append, hgone, List.nil_append, List.length_drop, hd,
        show rb.readPos + n - rb.capacity = n - (rb.capacity - rb.readPos) by omega]

/-- **`readData` takes the front of the queue.** -/
theorem readData_spec (h : Holds rb q) {buf : List UInt8} {length : Nat}
    (hbuf : readLength q length ≤ buf.length) :
    ∃ rb', rb.readData (some buf) length =
        some (rb', some (Block.overwrite buf (q.take (readLength q length))), readLength q length) ∧
      Holds rb' (q.drop (readLength q length)) := by
  have hlt := h.length_lt
  have hlen : (if length = 0 ∨ length > rb.used then rb.used else length) = readLength q length := by
    rw [h.used_eq, readLength]
    by_cases hz : length = 0
    · rw [if_pos (Or.inl hz), if_pos hz]
    · rw [if_neg hz]; split <;> omega
  have hle : readLength q length ≤ q.length := by unfold readLength; split <;> omega
  simp only [readData, hlen]
  generalize readLength q length = n at hbuf hle ⊢
  obtain ⟨hI, rfl⟩ := h
  have hr := hI.read_lt
  have hcap := hI.capacity_lt
  by_cases hpos : n > 0
  · have htmp : min n (sub64 rb.capacity rb.readPos) = min n (rb.capacity - rb.readPos) := by
      rw [sub64_of_le (by omega) (by omega)]
    obtain ⟨tmp, hdef⟩ : ∃ tmp, tmp = min n (rb.capacity - rb.readPos) := ⟨_, rfl⟩
    have hfirst : (rb.content.take tmp).length = tmp := by simp; omega
    have hwrite := Block.write_front buf (rb.content.take tmp) (by rw [hfirst]; omega)
    obtain ⟨hread, hrest⟩ := hI.read_pieces hle hdef
    have hadd : add64 rb.readPos n = rb.readPos + n := add64_of_lt (by omega)
    refine ⟨{ rb with readPos := (rb.readPos + n) % rb.capacity }, ?_, ?_, hI.content_advance hle⟩
    · simp only [if_pos hpos, htmp, ← hdef, hread, hwrite, hadd, Option.bind_eq_bind, Option.bind_some]
      by_cases hgt : n > tmp
      · have hsecond : ((rb.content.take n).drop tmp).length = n - tmp := by simp; omega
        have hbehind := Block.write_behind buf (rb.content.take tmp)
          ((rb.content.take n).drop tmp) (by rw [hfirst, hsecond]; omega)
        have hsplit : rb.content.take tmp ++ (rb.content.take n).drop tmp = rb.content.take n := by
          have := List.take_append_drop tmp (rb.content.take n)
          rwa [List.take_take, Nat.min_eq_left (by omega)] at this
        rw [hfirst, hsplit] at hbehind
        rw [if_pos hgt, hrest hgt]
        simp only [Option.bind_some, hbehind]
      · rw [if_neg hgt, show tmp = n by omega]
        rfl
    · exact ⟨hI.data_length, hcap, Nat.mod_lt _ (by omega), hI.write_lt⟩
  · have hz : n = 0 := by omega
    subst hz
    exact ⟨rb, by simp [Block.overwrite], hI, by simp⟩

/-! ## Growing -/

/-- **`expand` leaves the queue unchanged**, also when the content is wrapped: only the part in
front of the old end of the block moves. -/
theorem expand_spec (h : Holds rb q) (size : Nat) (hsize : size ≤ 2 ^ 62) :
    ∃ rb', rb.expand fresh size = some rb' ∧ Holds rb' q ∧ size ≤ rb'.capacity := by
  obtain ⟨⟨hd, hcap, hr, hw⟩, rfl⟩ := h
  obtain ⟨c, hgrow, hsz, hle, hbound⟩ :=
    Block.growCap_spec size rb.capacity (by omega) (by omega)
  simp only [expand, hgrow, Option.bind_eq_bind, Option.bind_some]
  by_cases hsame : c = rb.capacity
  · exact ⟨rb, by rw [if_neg (by omega)], ⟨⟨hd, hcap, hr, hw⟩, rfl⟩, by omega⟩
  rw [if_pos (by omega)]
  obtain ⟨junk, hjunk, hjlen⟩ := Block.realloc_of_le fresh (b := rb.data) (n := c) (by omega)
  by_cases hwrap : rb.readPos > rb.writePos
  · have htmp : sub64 rb.capacity rb.readPos = rb.capacity - rb.readPos :=
      sub64_of_le (by omega) (by omega)
    have hnew : sub64 c (rb.capacity - rb.readPos) = c - (rb.capacity - rb.readPos) :=
      sub64_of_le (by omega) (by omega)
    have hmove := Block.move_of_le (Block.realloc fresh rb.data c)
      (c - (rb.capacity - rb.readPos)) rb.readPos (rb.capacity - rb.readPos)
      (by rw [Block.realloc_length]; omega) (by rw [Block.realloc_length]; omega)
    have hkept : ((Block.realloc fresh rb.data c).drop rb.readPos).take (rb.capacity - rb.readPos) =
        rb.data.drop rb.readPos := by
      rw [hjunk, List.drop_append_of_le_length (by omega), List.take_append_of_le_length (by simp; omega),
        List.take_of_length_le (by simp; omega)]
    have hend : (Block.realloc fresh rb.data c).drop
        (c - (rb.capacity - rb.readPos) + (rb.capacity - rb.readPos)) = [] :=
      List.drop_of_length_le (by rw [Block.realloc_length]; omega)
    rw [hkept, hend, List.append_nil] at hmove
    have hfront : ((Block.realloc fresh rb.data c).take (c - (rb.capacity - rb.readPos))).length =
        c - (rb.capacity - rb.readPos) := by
      rw [List.length_take, Block.realloc_length]
      omega
    rw [if_pos hwrap]
    simp only [htmp, hnew, hmove, Option.bind_some]
    refine ⟨_, rfl, ⟨⟨?_, by simp only; omega, by simp only; omega, by simp only; omega⟩, ?_⟩, hsz⟩
    · simp only [List.length_append, hfront, List.length_drop]
      omega
    · unfold content around
      simp only
      rw [if_neg (by omega), if_neg (by omega), List.drop_left' hfront,
        List.take_append_of_le_length (by rw [hfront]; omega), List.take_take,
        Nat.min_eq_left (by omega), Block.take_realloc fresh (by omega) (by omega)]
  · rw [if_neg hwrap]
    refine ⟨_, rfl, ⟨⟨Block.realloc_length _ _ _, by simp only; omega, by simp only; omega,
      by simp only; omega⟩, ?_⟩, hsz⟩
    unfold content around
    rw [if_pos (by simp only; omega), if_pos (by omega)]
    simp only [Block.take_realloc fresh (b := rb.data) (n := c) (m := rb.writePos) (by omega) (by omega)]

/-! ## Writing -/

/-- The two copies of a write: up to the end of the block, and on from its start. -/
def writePieces (data : List UInt8) (w tmp : Nat) (xs : List UInt8) : Option (List UInt8) :=
  (Block.write data w (xs.take tmp)).bind fun data =>
    if xs.length > tmp then Block.write data 0 (xs.drop tmp) else some data

/-- A write that stays in front of the end of the block. -/
theorem RInv.write_straight (h : RInv rb) {xs : List UInt8}
    (hroom : xs.length + rb.content.length < rb.capacity) (hend : rb.writePos + xs.length < rb.capacity) :
    ∃ data', writePieces rb.data rb.writePos xs.length xs = some data' ∧
      data'.length = rb.capacity ∧
      around data' rb.readPos (rb.writePos + xs.length) = rb.content ++ xs := by
  obtain ⟨hd, hc, hr, hw⟩ := h
  have hwrite := Block.write_of_le rb.data xs rb.writePos (by omega)
  have hrun : writePieces rb.data rb.writePos xs.length xs =
      some (rb.data.take rb.writePos ++ xs ++ rb.data.drop (rb.writePos + xs.length)) := by
    rw [writePieces, List.take_length, hwrite, Option.bind_some, if_neg (Nat.lt_irrefl _)]
  refine ⟨_, hrun, by rw [Block.write_length hwrite, hd], ?_⟩
  have htake := Block.take_write hwrite
  unfold content around at hroom ⊢
  by_cases hrw : rb.readPos ≤ rb.writePos
  · rw [if_pos (by omega), if_pos hrw, htake, List.drop_append_of_le_length (by simp; omega)]
  · rw [if_neg hrw] at hroom ⊢
    simp only [List.length_append, List.length_drop, List.length_take] at hroom
    rw [if_neg (by omega), htake, Block.drop_write_of_le hwrite (by omega), List.append_assoc]

/-- A write that reaches the end of the block; the content cannot be wrapped then. -/
theorem RInv.write_around (h : RInv rb) {xs : List UInt8}
    (hroom : xs.length + rb.content.length < rb.capacity) (hend : rb.capacity ≤ rb.writePos + xs.length) :
    ∃ data', writePieces rb.data rb.writePos (rb.capacity - rb.writePos) xs = some data' ∧
      data'.length = rb.capacity ∧
      around data' rb.readPos (rb.writePos + xs.length - rb.capacity) = rb.content ++ xs := by
  obtain ⟨hd, hc, hr, hw⟩ := h
  unfold content around at hroom ⊢
  have hrw : rb.readPos ≤ rb.writePos := by
    refine Classical.byContradiction fun hrw => ?_
    rw [if_neg hrw] at hroom
    simp only [List.length_append, List.length_drop, List.length_take] at hroom
    omega
  rw [if_pos hrw] at hroom ⊢
  simp only [List.length_drop, List.length_take] at hroom
  have hfirst : (xs.take (rb.capacity - rb.writePos)).length = rb.capacity - rb.writePos := by simp; omega
  have hsecond : (xs.drop (rb.capacity - rb.writePos)).length = rb.writePos + xs.length - rb.capacity := by
    simp; omega
  have hwrite := Block.write_of_le rb.data (xs.take (rb.capacity - rb.writePos))
    rb.writePos (by omega)
  have hlen₁ := Block.write_length hwrite
  have htake₁ := Block.take_write hwrite
  generalize rb.data.take rb.writePos ++ xs.take (rb.capacity - rb.writePos) ++
    rb.data.drop (rb.writePos + (xs.take (rb.capacity - rb.writePos)).length) = d₁ at hwrite hlen₁ htake₁
  rw [List.take_of_length_le (by omega)] at htake₁
  have hwrite₂ := Block.write_of_le d₁ (xs.drop (rb.capacity - rb.writePos)) 0 (by omega)
  have htail : (if xs.length > rb.capacity - rb.writePos then
      Block.write d₁ 0 (xs.drop (rb.capacity - rb.writePos)) else some d₁) =
      Block.write d₁ 0 (xs.drop (rb.capacity - rb.writePos)) := by
    split
    · rfl
    · rw [hwrite₂, List.drop_of_length_le (by omega)]
      simp
  refine ⟨_, by rw [writePieces, hwrite, Option.bind_some, htail, hwrite₂],
    by rw [Block.write_length hwrite₂, hlen₁, hd], ?_⟩
  have htake₂ := Block.take_write hwrite₂
  rw [Nat.zero_add, hsecond, List.take_zero, List.nil_append] at htake₂
  have hback := Block.drop_write_of_le hwrite₂ (n := rb.readPos) (by omega)
  rw [hsecond, List.take_zero, List.nil_append, Nat.zero_add] at hback
  rw [hsecond, List.take_zero, List.nil_append, Nat.zero_add, if_neg (by omega), htake₂, hback, htake₁,
    List.drop_append_of_le_length (by simp; omega), List.append_assoc, List.take_append_drop]

/-- **`writeData` appends to the queue.** -/
theorem writeData_spec (h : Holds rb q) (inData : Option (List UInt8))
    (hsize : q.length + (inData.getD []).length < 2 ^ 62) :
    ∃ rb', rb.writeData fresh inData = some rb' ∧ Holds rb' (q ++ inData.getD []) := by
  cases inData with
  | none => exact ⟨rb, rfl, by simpa using h⟩
  | some xs =>
    simp only [Option.getD_some] at hsize ⊢
    by_cases hnil : xs.length = 0
    · have hx : xs = [] := List.length_eq_zero_iff.mp hnil
      exact ⟨rb, by rw [writeData, if_pos hnil], by simpa [hx] using h⟩
    have hcap := h.inv.capacity_lt
    have hqlt := h.length_lt
    have hava := h.available_eq
    -- after the growth step there is room for `xs` and the free cell
    obtain ⟨rb₁, hgrow, h₁, hroom⟩ : ∃ rb₁,
        (if xs.length > rb.available then
          rb.expand fresh (add64 (sub64 xs.length rb.available) rb.capacity) else some rb) = some rb₁ ∧
        Holds rb₁ q ∧ xs.length + q.length < rb₁.capacity := by
      by_cases hmore : xs.length > rb.available
      · have harg : add64 (sub64 xs.length rb.available) rb.capacity = xs.length + q.length + 1 := by
          rw [sub64_of_le (by omega) (by omega), add64_of_lt (by omega)]
          omega
        obtain ⟨rb₁, hexp, h₁, hle⟩ := expand_spec fresh h
          (xs.length + q.length + 1) (by omega)
        exact ⟨rb₁, by rw [if_pos hmore, harg, hexp], h₁, by omega⟩
      · exact ⟨rb, if_neg hmore, h, by omega⟩
    have hcap₁ := h₁.inv.capacity_lt
    have hr₁ := h₁.inv.read_lt
    have hw₁ := h₁.inv.write_lt
    have hsub : sub64 rb₁.capacity rb₁.writePos = rb₁.capacity - rb₁.writePos :=
      sub64_of_le (by omega) (by omega)
    have hadd : add64 rb₁.writePos xs.length = rb₁.writePos + xs.length := add64_of_lt (by omega)
    obtain ⟨data', hdata, hlen, hcontent⟩ : ∃ data',
        writePieces rb₁.data rb₁.writePos (min xs.length (rb₁.capacity - rb₁.writePos)) xs = some data' ∧
        data'.length = rb₁.capacity ∧
        around data' rb₁.readPos ((rb₁.writePos + xs.length) % rb₁.capacity) = q ++ xs := by
      have hroom' : xs.length + rb₁.content.length < rb₁.capacity := by rw [h₁.content_eq]; exact hroom
      rw [← h₁.content_eq]
      by_cases hend : rb₁.writePos + xs.length < rb₁.capacity
      · rw [Nat.min_eq_left (by omega), Nat.mod_eq_of_lt hend]
        exact h₁.inv.write_straight hroom' hend
      · rw [Nat.min_eq_right (by omega), Nat.mod_eq_sub_mod (by omega), Nat.mod_eq_of_lt (by omega)]
        exact h₁.inv.write_around hroom' (by omega)
    refine ⟨{ rb₁ with data := data', writePos := (rb₁.writePos + xs.length) % rb₁.capacity }, ?_,
      ⟨hlen, hcap₁, hr₁, Nat.mod_lt _ (by omega)⟩, hcontent⟩
    simp only [writePieces] at hdata
    simp only [writeData, if_neg hnil, Option.bind_eq_bind, hgrow, Option.bind_some, hsub, hadd]
    rw [← Option.bind_assoc, hdata]
    rfl

end RingBuffer

end Libws.Core
