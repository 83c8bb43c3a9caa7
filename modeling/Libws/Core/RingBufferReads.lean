import Libws.Core.ByteArrayReads
import Libws.Core.ByteArrayStream
import Libws.Core.RingBufferQueue

/-!
# Typed reads of a `RingBuffer` and of a `ByteArray`

`readNumber` and `operator>>` of both classes, on the same bytes.  The array compares the size of the type with
what is left and then reads all of it or nothing.  The ring buffer reads what is left, for the size is only the
most that `readData` takes.

* `queueRead` — a read that takes all bytes or none;
* `arrayRead_refines`, `ringRead_spec` — what one read does;
* `typed_reads_agree_iff` — the runs on which both classes do the same.
-/

set_option autoImplicit false

namespace Libws.Core

open Libws.Machine
open Libws.Core.ByteArray (Unreads Width frontRead)

/-! ## The reads -/

/-- The object representation of a value. -/
abbrev Value (width : Width) := { bytes : List UInt8 // bytes.length = width.bytes }

inductive ReadCall where
  | readNumber (width : Width)
  | operatorShr (width : Width) (val : Value width)

def ReadCall.width : ReadCall → Width
  | .readNumber width => width
  | .operatorShr width _ => width

/-- What the variable holds before the read. -/
def ReadCall.before : ReadCall → List UInt8
  | .readNumber width => List.replicate width.bytes 0
  | .operatorShr _ val => val.val

/-- The value, or what the target holds then, and how many bytes are left to read. -/
abbrev ReadResult := List UInt8 × Nat

def arrayRead (b : ByteArray) (c : ReadCall) : Option (ByteArray × ReadResult) :=
  match c with
  | .readNumber width => (b.readNumber width.bytes).map fun (b, value) => (b, value, b.readAvailable)
  | .operatorShr _ val => (b.operatorShr val.val).map fun (b, val) => (b, val, b.readAvailable)

def ringRead (rb : RingBuffer) (c : ReadCall) : Option (RingBuffer × ReadResult) :=
  match c with
  | .readNumber width => (rb.readNumber width.bytes).map fun (rb, value) => (rb, value, rb.used)
  | .operatorShr _ val => (rb.operatorShr val.val).map fun (rb, val) => (rb, val, rb.used)

/-- A read of a queue: all bytes of the value, or none. -/
def queueRead (q : List UInt8) (c : ReadCall) : List UInt8 × ReadResult :=
  ((frontRead q c.before).1, (frontRead q c.before).2, (frontRead q c.before).1.length)

/-- The value is there, or nothing is. -/
def WholeOrNothing (q : List UInt8) (c : ReadCall) : Prop := c.width.bytes ≤ q.length ∨ q = []

/-! ## One read -/

variable {b : ByteArray} {rb : RingBuffer} {q : List UInt8}

theorem ReadCall.before_length (c : ReadCall) : c.before.length = c.width.bytes := by
  cases c with
  | readNumber width => exact List.length_replicate
  | operatorShr width val => exact val.property

theorem ByteArray.Width.bytes_pos (width : Width) : 0 < width.bytes := by
  cases width <;> decide

theorem arrayRead_eq (b : ByteArray) (c : ReadCall) :
    arrayRead b c = (b.operatorShr c.before).map fun (b, val) => (b, val, b.readAvailable) := by
  cases c with
  | readNumber width =>
    rw [arrayRead, ByteArray.readNumber_eq]
    rfl
  | operatorShr width val => rfl

/-- **The array** reads the whole value or nothing. -/
theorem arrayRead_refines (b : ByteArray) (q : List UInt8) (c : ReadCall) (h : Unreads b q) :
    ∃ b' r, arrayRead b c = some (b', r) ∧ Unreads b' (queueRead q c).1 ∧ r = (queueRead q c).2 := by
  obtain ⟨b', hread, h'⟩ := ByteArray.operatorShr_unreads h c.before
  have havail := h'.readAvailable_eq
  exact ⟨b', _, by rw [arrayRead_eq, hread, Option.map_some], h', by rw [queueRead, havail]⟩

theorem ringRead_eq (rb : RingBuffer) (c : ReadCall) :
    ringRead rb c = (rb.operatorShr c.before).map fun (rb, val) => (rb, val, rb.used) := by
  cases c with
  | readNumber width =>
    simp only [ringRead, RingBuffer.readNumber, RingBuffer.operatorShr, ReadCall.before, List.length_replicate]
  | operatorShr width val => rfl

/-- **The ring buffer** reads the bytes that are left, up to the size of the value. -/
theorem ringRead_spec (h : RingBuffer.Holds rb q) (c : ReadCall) :
    ∃ rb', ringRead rb c =
        some (rb', Block.overwrite c.before (q.take c.width.bytes), q.length - c.width.bytes) ∧
      RingBuffer.Holds rb' (q.drop c.width.bytes) := by
  have hpos := c.width.bytes_pos
  have hlen : RingBuffer.readLength q c.before.length = min c.width.bytes q.length := by
    rw [RingBuffer.readLength, c.before_length, if_neg (by omega)]
  have hroom : RingBuffer.readLength q c.before.length ≤ c.before.length := by
    rw [hlen, c.before_length]
    exact Nat.min_le_left _ _
  obtain ⟨rb', hread, h'⟩ := RingBuffer.readData_spec h hroom
  rw [hlen, ← List.take_eq_take_min] at hread
  rw [hlen, ← List.drop_eq_drop_min] at h'
  refine ⟨rb', ?_, h'⟩
  rw [ringRead_eq, RingBuffer.operatorShr, hread]
  simp only [Option.map_some, Option.getD_some, h'.used_eq, List.length_drop]

/-- One read does the same in the ring buffer exactly if the value is there, or nothing is. -/
theorem ringRead_refines (rb : RingBuffer) (q : List UInt8) (c : ReadCall) (h : RingBuffer.Holds rb q) :
    ∃ rb' r, ringRead rb c = some (rb', r) ∧
      (WholeOrNothing q c → RingBuffer.Holds rb' (queueRead q c).1) ∧
      (r = (queueRead q c).2 ↔ WholeOrNothing q c) := by
  obtain ⟨rb', hread, h'⟩ := ringRead_spec h c
  have hpos := c.width.bytes_pos
  have hbefore := c.before_length
  by_cases hle : c.width.bytes ≤ q.length
  · -- the whole value
    have hfront : frontRead q c.before = (q.drop c.width.bytes, q.take c.width.bytes) := by
      rw [frontRead, hbefore, if_pos hle]
    have hvalue : Block.overwrite c.before (q.take c.width.bytes) = q.take c.width.bytes := by
      rw [Block.overwrite, List.length_take, Nat.min_eq_left hle,
        List.drop_of_length_le (by omega), List.append_nil]
    rw [hvalue] at hread
    refine ⟨rb', _, hread, fun _ => ?_, ?_⟩
    · rw [queueRead, hfront]
      exact h'
    · rw [queueRead, hfront, List.length_drop]
      exact iff_of_true rfl (Or.inl hle)
  · have hfront : frontRead q c.before = (q, c.before) := by
      rw [frontRead, hbefore, if_neg hle]
    rw [List.drop_of_length_le (by omega)] at h'
    refine ⟨rb', _, hread, fun hok => ?_, ?_⟩
    · have hnil : q = [] := hok.resolve_left hle
      rw [queueRead, hfront, hnil]
      exact h'
    · -- the part of a value: the ring buffer is empty then, the queue is as it was
      rw [queueRead, hfront]
      constructor
      · intro heq
        have hcount : q.length - c.width.bytes = q.length := congrArg Prod.snd heq
        exact Or.inr (List.length_eq_zero_iff.mp (by omega))
      · intro hok
        have hnil : q = [] := hok.resolve_left hle
        rw [hnil, List.take_nil]
        exact Prod.ext rfl (Nat.zero_sub _)

/-! ## All reads -/

/-- **Typed reads of both classes** give the same values and leave as many bytes, exactly on the runs in which
every read finds its whole value or nothing. -/
theorem typed_reads_agree_iff (h : RingBuffer.Holds rb q) (hb : Unreads b q) (calls : List ReadCall) :
    Agree ringRead arrayRead rb b calls ↔ Admissible queueRead WholeOrNothing q calls :=
  agree_iff ringRead_refines arrayRead_refines calls rb b q h hb

/-- Two whole values, and one of which nothing is there. -/
theorem typed_reads_agree_three :
    ∃ rb, RingBuffer.new.writeData (fun _ => 0) (some [1, 2, 3]) = some rb ∧
      Agree ringRead arrayRead rb (ByteArray.ofBytes [1, 2, 3] false)
        [.readNumber .two, .operatorShr .one ⟨[9], rfl⟩, .operatorShr .four ⟨[9, 8, 7, 6], rfl⟩] := by
  obtain ⟨rb, hwrite, h⟩ := RingBuffer.writeData_spec (fun _ => 0) RingBuffer.new_holds (some [1, 2, 3]) (by decide)
  have hb := ByteArray.ofBytes_unreads [1, 2, 3] false (by decide)
  refine ⟨rb, hwrite, (typed_reads_agree_iff h hb _).mpr ?_⟩
  exact ⟨Or.inl (by decide), Or.inl (by decide), Or.inr rfl, trivial⟩

/-- One byte for a value of two. -/
theorem half_value_read :
    ∃ rb, RingBuffer.new.writeData (fun _ => 0) (some [1]) = some rb ∧
      ¬ Agree ringRead arrayRead rb (ByteArray.ofBytes [1] true) [.readNumber .two] := by
  obtain ⟨rb, hwrite, h⟩ := RingBuffer.writeData_spec (fun _ => 0) RingBuffer.new_holds (some [1]) (by decide)
  obtain ⟨rb', hring, -⟩ := ringRead_spec h (.readNumber .two)
  have harray : arrayRead (ByteArray.ofBytes [1] true) (.readNumber .two) =
      some (ByteArray.ofBytes [1] true, [0, 0], 1) := rfl
  refine ⟨rb, hwrite, fun hagree => ?_⟩
  have hvalue := ((agree_cons hring harray).mp hagree).1
  exact absurd hvalue (by decide)

end Libws.Core
