import Libws.Core.ByteArrayReads
import Libws.Core.ByteArrayStream
import Libws.Core.RingBufferString

/-!
# Strings that keep a stream in step

`operator<<` of a string, in `ByteArray` and in `RingBuffer`.  Both write `(uint16_t)val.size()` as the length.
Behind it the array writes as many bytes, the ring buffer all bytes of the string.

* `ByteArray.inStep` — an array appends a frame for every string, and reading it leads to what follows;
* `ByteArray.string_then` — the same as one run of calls;
* `RingBuffer.appendsFrame_iff` — a ring buffer does so up to 65535 bytes;
* `RingBuffer.readsPast_iff` — and reads past every frame but the empty one;
* `strings_in_step_iff` — the strings that keep both in step.
-/

set_option autoImplicit false

namespace Libws.Core

open Libws.Word

theorem Payload.frame_length (p : Payload) : p.frame.length = 2 + p.val.length := by
  rw [frame, List.length_append, leBytes_length]

namespace ByteArray

/-- Reading the frame of `p` leads to the bytes behind it. -/
def ReadsPast (p : Payload) : Prop :=
  ∀ b next, Unreads b (p.frame ++ next) →
    (∃ b', b.readStringPrefixed = some (b', p.val) ∧ Unreads b' next) ∧
    ∀ old, ∃ b' s, b.operatorShrString old = some (b', s) ∧ Unreads b' next

/-- `operator<<` appends a length with so many bytes, and reading them leads to what is written next. -/
def InStep (fresh : Nat → UInt8) (b : ByteArray) (val : List UInt8) : Prop :=
  ∃ b' p, b.operatorShlString fresh val = some (.ok b') ∧ b'.content = b.content ++ Payload.frame p ∧
    b'.readPos = b.readPos ∧ ReadsPast p

theorem readsPast (p : Payload) : ReadsPast p := by
  intro b next h
  have hnext := behindFrame_unreads h
  refine ⟨⟨_, readStringPrefixed_frame h, hnext⟩, fun old => ?_⟩
  exact ⟨_, _, operatorShrString_frame h old, hnext⟩

/-- The bytes that the length counts. -/
def counted (val : List UInt8) : Payload :=
  ⟨val.take (val.length % 2 ^ 16), by
    rw [List.length_take]
    exact Nat.lt_of_le_of_lt (Nat.min_le_left _ _) (Nat.mod_lt _ (by decide))⟩

theorem stringBytes_eq_frame (val : List UInt8) : stringBytes val = (counted val).frame := by
  have hlen : (counted val).val.length = val.length % 2 ^ 16 :=
    List.length_take.trans (Nat.min_eq_left (Nat.mod_le _ _))
  rw [stringBytes, Payload.frame, hlen]
  rfl

theorem stringBytes_length_le (val : List UInt8) : (stringBytes val).length ≤ 2 + val.length := by
  rw [stringBytes_eq_frame, Payload.frame_length]
  exact Nat.add_le_add_left (List.length_take_le' _ _) 2

/-- **An array stays in step** with every string. -/
theorem inStep {b : ByteArray} (fresh : Nat → UInt8) (h : Owned b) {val : List UInt8}
    (hsize : b.content.length + 2 + val.length < 2 ^ 62) : InStep fresh b val := by
  have hlen := stringBytes_length_le val
  have hfits : (b.tape h).content.length + (stringBytes val).length < 2 ^ 62 := by
    show b.content.length + _ < _
    omega
  obtain ⟨b', hrun, h'⟩ := operatorShlString_spec fresh (holds_tape h) hfits
  have hcontent := h'.content_eq
  rw [stringBytes_eq_frame] at hcontent
  exact ⟨b', counted val, hrun, hcontent, h'.cursor_eq, readsPast _⟩

/-- What is left to read of the tape is what stands between the positions. -/
theorem Holds.unreads {b : ByteArray} {t : Tape UInt8} (h : Holds b t) : Unreads b t.unread := by
  have hO := h.owned
  refine ⟨⟨hO.read_le, hO.write_le, hO.data_length, hO.capacity_lt⟩, ?_⟩
  rw [h.content_eq, h.cursor_eq, Tape.unread]

/-- **A string, and anything behind it**: written to an array with nothing left to read, the string is read
and the rest is left. -/
theorem string_then {b : ByteArray} (fresh : Nat → UInt8) (h : Owned b) (hread : b.readPos = b.writePos)
    (val next : List UInt8) (hsize : b.content.length + 2 + val.length + next.length < 2 ^ 62) :
    ∃ b₁ b₂ b₃, b.operatorShlString fresh val = some (.ok b₁) ∧ b₁.writeData fresh (some next) = some b₂ ∧
      b₂.readStringPrefixed = some (b₃, (counted val).val) ∧ Unreads b₃ next := by
  have hlen := stringBytes_length_le val
  have hcontent : (b.tape h).content = b.content := rfl
  have hfits : (b.tape h).content.length + (stringBytes val).length < 2 ^ 62 := by
    rw [hcontent]
    omega
  obtain ⟨b₁, hval, h₁⟩ := operatorShlString_spec fresh (holds_tape h) hfits
  have hroom : ((b.tape h).append (stringBytes val)).content.length + ((some next).getD []).length < 2 ^ 62 := by
    simp only [Tape.append, List.length_append, hcontent, Option.getD_some]
    omega
  obtain ⟨b₂, hnext, h₂⟩ := writeData_spec fresh h₁ (some next) hroom
  have hunread := h₂.unreads
  have hbytes : (((b.tape h).append (stringBytes val)).append next).unread = (counted val).frame ++ next := by
    rw [append_append, ← stringBytes_eq_frame]
    show (b.content ++ (stringBytes val ++ next)).drop b.readPos = _
    rw [hread, ← h.content_length, List.drop_left]
  rw [Option.getD_some, hbytes] at hunread
  obtain ⟨⟨b₃, hstring, h₃⟩, -⟩ := readsPast _ _ _ hunread
  exact ⟨b₁, b₂, b₃, hval, hnext, hstring, h₃⟩

end ByteArray

namespace RingBuffer

variable {rb : RingBuffer} {val : List UInt8}

/-- `operator<<` appends the frame of `p`. -/
def AppendsFrame (fresh : Nat → UInt8) (rb : RingBuffer) (val : List UInt8) (p : Payload) : Prop :=
  ∃ rb', rb.operatorShlString fresh val = some rb' ∧ Holds rb' (rb.content ++ p.frame)

/-- Reading the frame of `p` leads to the bytes behind it. -/
def ReadsPast (p : Payload) : Prop :=
  ∀ rb next, Holds rb (p.frame ++ next) →
    (∃ rb', rb.readStringPrefixed = some (rb', p.val) ∧ Holds rb' next) ∧
    ∀ old, ∃ rb' s, rb.operatorShrString old = some (rb', s) ∧ Holds rb' next

/-- `operator<<` appends a length with so many bytes, and reading them leads to what is written next. -/
def InStep (fresh : Nat → UInt8) (rb : RingBuffer) (val : List UInt8) : Prop :=
  ∃ p, AppendsFrame fresh rb val p ∧ ReadsPast p

theorem stringBytes_eq_frame (p : Payload) : stringBytes p.val = p.frame := by
  rw [stringBytes, Nat.mod_eq_of_lt p.property]
  rfl

/-- What is appended is a frame only of the whole string. -/
theorem appendsFrame_eq (fresh : Nat → UInt8) (h : RInv rb) (hsize : rb.content.length + 2 + val.length < 2 ^ 62)
    {p : Payload} : AppendsFrame fresh rb val p ↔ p.val = val := by
  have hlen := stringBytes_length val
  obtain ⟨rb', hrun, h'⟩ := operatorShlString_spec fresh ⟨h, rfl⟩ val (by omega)
  constructor
  · rintro ⟨rb'', hrun', h''⟩
    rw [hrun] at hrun'
    obtain rfl := Option.some.inj hrun'
    have hbytes : stringBytes val = p.frame :=
      List.append_cancel_left (h'.content_eq.symm.trans h''.content_eq)
    have hprefix : (leBytes 2 (val.length % 2 ^ 16)).length = (leBytes 2 p.val.length).length := by
      rw [leBytes_length, leBytes_length]
    exact (List.append_inj hbytes hprefix).2.symm
  · rintro rfl
    rw [stringBytes_eq_frame] at h'
    exact ⟨rb', hrun, h'⟩

/-- **The length counts the payload** of strings up to 65535 bytes, and of no others. -/
theorem appendsFrame_iff (fresh : Nat → UInt8) (h : RInv rb)
    (hsize : rb.content.length + 2 + val.length < 2 ^ 62) :
    (∃ p, AppendsFrame fresh rb val p) ↔ val.length ≤ 65535 := by
  constructor
  · rintro ⟨p, hp⟩
    have hshort := p.property
    rw [(appendsFrame_eq fresh h hsize).mp hp] at hshort
    omega
  · intro hshort
    exact ⟨⟨val, by omega⟩, (appendsFrame_eq fresh h hsize).mpr rfl⟩

/-- **Every frame but the empty one** is read and no more; for the length 0 everything is. -/
theorem readsPast_iff (p : Payload) : ReadsPast p ↔ p.val ≠ [] := by
  constructor
  · intro h hnil
    obtain ⟨rb, hrun, hholds⟩ := writeData_spec (fun _ => 0) new_holds (some (p.frame ++ [0])) (by
      have hlen := p.property
      rw [Option.getD_some, List.length_append, Payload.frame_length]
      simp only [List.length_nil, List.length_singleton]
      omega)
    obtain ⟨⟨rb', hread, -⟩, -⟩ := h rb [0] hholds
    have hempty : stringBytes [] = p.frame := by rw [← hnil, stringBytes_eq_frame]
    have hfront : Holds rb (stringBytes [] ++ [0]) := by
      rw [hempty]
      exact hholds
    rw [readStringPrefixed_overflow hfront (List.cons_ne_nil 0 [])] at hread
    cases hread
  · intro hne rb next h
    rw [← stringBytes_eq_frame] at h
    have hval := p.property
    obtain ⟨rb', hread, h'⟩ := readStringPrefixed_spec h (by omega) fun hnil => absurd hnil hne
    exact ⟨⟨rb', hread, h'⟩, fun _ => ⟨rb', p.val, hread, h'⟩⟩

theorem inStep_iff (fresh : Nat → UInt8) (h : RInv rb) (hsize : rb.content.length + 2 + val.length < 2 ^ 62) :
    InStep fresh rb val ↔ 1 ≤ val.length ∧ val.length ≤ 65535 := by
  have hpos : val ≠ [] ↔ 1 ≤ val.length := List.length_pos_iff.symm
  constructor
  · rintro ⟨p, hp, hread⟩
    have hval := (appendsFrame_eq fresh h hsize).mp hp
    have hne := (readsPast_iff p).mp hread
    rw [hval] at hne
    exact ⟨hpos.mp hne, (appendsFrame_iff fresh h hsize).mp ⟨p, hp⟩⟩
  · rintro ⟨hone, hshort⟩
    exact ⟨⟨val, by omega⟩, (appendsFrame_eq fresh h hsize).mpr rfl, (readsPast_iff _).mpr (hpos.mpr hone)⟩

end RingBuffer

/-- **Strings that keep both streams in step**: those of 1 to 65535 bytes. -/
theorem strings_in_step_iff {b : ByteArray} {rb : RingBuffer} (fresh fresh' : Nat → UInt8) (hb : b.Owned)
    (hrb : rb.RInv) {val : List UInt8} (hsize : b.content.length + 2 + val.length < 2 ^ 62)
    (hsize' : rb.content.length + 2 + val.length < 2 ^ 62) :
    (b.InStep fresh val ∧ rb.InStep fresh' val) ↔ 1 ≤ val.length ∧ val.length ≤ 65535 := by
  rw [RingBuffer.inStep_iff fresh' hrb hsize']
  exact and_iff_right (ByteArray.inStep fresh hb hsize)

/-- A string with a zero byte, into an array that has to grow and a new ring buffer. -/
theorem strings_in_step_three :
    (ByteArray.ofLength 1).InStep (fun _ => 7) [65, 0, 66] ∧ RingBuffer.new.InStep (fun _ => 0) [65, 0, 66] :=
  (strings_in_step_iff (fun _ => 7) (fun _ => 0) (ByteArray.ofLength_holds (by decide : 1 < 2 ^ 62)).owned
    RingBuffer.new_holds.inv (by decide) (by decide)).mpr (by decide)

/-- A string of 65536 bytes has the length 0. -/
theorem long_string_out_of_step :
    ¬ ((ByteArray.ofLength 1).InStep (fun _ => 7) (List.replicate 65536 0) ∧
      RingBuffer.new.InStep (fun _ => 0) (List.replicate 65536 0)) := by
  have hempty : RingBuffer.new.content = [] := RingBuffer.new_holds.content_eq
  rintro ⟨-, hstep⟩
  have hsize : RingBuffer.new.content.length + 2 + (List.replicate 65536 (0 : UInt8)).length < 2 ^ 62 := by
    rw [hempty, List.length_replicate]
    decide
  have hshort := ((RingBuffer.inStep_iff (fun _ => 0) RingBuffer.new_holds.inv hsize).mp hstep).2
  rw [List.length_replicate] at hshort
  omega

end Libws.Core
