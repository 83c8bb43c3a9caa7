import Libws.Core.ByteArrayTape

/-!
# Runs of `ByteArray` calls

The calls on one owned, writable array as an operation machine (`Call`, `step`), and the same
calls on a tape (`specStep`).  `Fits` is the size bound under which `size_t` cannot wrap, with
caller buffers that are large enough.

* `step_refines` — one call on an array that holds a tape;
* `byteArray_refines_tape` — every run from a newly built array.
-/

set_option autoImplicit false

namespace Libws.Core.ByteArray

open Libws.Machine

/-- A target of `readBytes`, `cutHead` and `cutTail`: another owned, writable array. -/
abbrev OwnedArray := { b : ByteArray // b.Owned }

inductive Op where
  | operatorShl (val : List UInt8)
  | operatorShlArray (other : ReadableArray)
  | operatorShlString (val : List UInt8)
  | writeData (inData : Option (List UInt8))
  | writeEmptyData (length : Nat)
  | readNumber (typeSize : Nat)
  | operatorShr (val : List UInt8)
  | readData (outData : Option (List UInt8)) (length : Nat)
  | readString (length : Nat)
  | readBytes (outBytes : OwnedArray) (length : Nat)
  | readPosition (value : Nat)
  | truncate (resetSize : Nat)
  | cutHead (length : Nat) (out : Option (List UInt8))
  | cutHeadArray (length : Nat) (out : OwnedArray)
  | cutTail (length : Nat) (out : Option (List UInt8))
  | cutTailArray (length : Nat) (out : OwnedArray)

/-- A call, with what the allocator leaves in the bytes that it adds during the call. -/
structure Call where
  fresh : Nat → UInt8
  op : Op

/-- What a call hands back; `A` is the type of a target array.  A count of a function without
    result is `0`. -/
inductive Result (A : Type) where
  | done
  | thrown (what : String)
  | value (val : List UInt8)
  | buffer (out : Option (List UInt8)) (count : Nat)
  | array (out : A) (count : Nat)

def step (b : ByteArray) (c : Call) : Option (ByteArray × Result ByteArray) :=
  match c.op with
  | .operatorShl val =>
    (b.operatorShl c.fresh val).map fun
      | .ok b' => (b', .done)
      | .error e => (b, .thrown e)
  | .operatorShlArray other => (b.operatorShlArray c.fresh other.val).map (·, .done)
  | .operatorShlString val =>
    (b.operatorShlString c.fresh val).map fun
      | .ok b' => (b', .done)
      | .error e => (b, .thrown e)
  | .writeData inData => (b.writeData c.fresh inData).map (·, .done)
  | .writeEmptyData length => (b.writeEmptyData c.fresh length).map (·, .done)
  | .readNumber typeSize => (b.readNumber typeSize).map fun q => (q.1, .value q.2)
  | .operatorShr val => (b.operatorShr val).map fun q => (q.1, .value q.2)
  | .readData outData length =>
    (b.readData outData length).map fun q => (q.1, .buffer q.2.1 q.2.2)
  | .readString length => (b.readString length).map fun q => (q.1, .value q.2)
  | .readBytes outBytes length =>
    (b.readBytes c.fresh outBytes.val length).map fun q => (q.1, .array q.2.1 q.2.2)
  | .readPosition value => some (b.readPosition value, .done)
  | .truncate resetSize => some (b.truncate c.fresh resetSize, .done)
  | .cutHead length out => (b.cutHead length out).map fun q => (q.1, .buffer q.2 0)
  | .cutHeadArray length out =>
    (b.cutHeadArray c.fresh length out.val).map fun q => (q.1, .array q.2 0)
  | .cutTail length out => (b.cutTail length out).map fun q => (q.1, .buffer q.2 0)
  | .cutTailArray length out =>
    (b.cutTailArray c.fresh length out.val).map fun q => (q.1, .array q.2 0)

/-- The prefix of length `length` that `cutHead` removes, the whole content if there is no more. -/
def headPart (t : Tape UInt8) (length : Nat) : List UInt8 := t.content.take length

/-- The suffix of length `length` that `cutTail` removes. -/
def tailPart (t : Tape UInt8) (length : Nat) : List UInt8 := t.content.drop (t.content.length - length)

/-- The calls on a tape. -/
def specStep (t : Tape UInt8) (c : Call) : Tape UInt8 × Result (Tape UInt8) :=
  match c.op with
  | .operatorShl val => (t.append val, .done)
  | .operatorShlArray other => (t.append other.val.content, .done)
  | .operatorShlString val => (t.append (stringBytes val), .done)
  | .writeData inData => (t.append (inData.getD []), .done)
  | .writeEmptyData length => (t.append (List.replicate length 0), .done)
  | .readNumber n => ((typedRead t n (List.replicate n 0)).1, .value (typedRead t n (List.replicate n 0)).2)
  | .operatorShr val => ((typedRead t val.length val).1, .value (typedRead t val.length val).2)
  | .readData none _ => (t, .buffer none 0)
  | .readData (some buf) length =>
    (t.advance (readLength t length),
      .buffer (some (Block.overwrite buf (t.peek (readLength t length)))) (readLength t length))
  | .readString length => (t.advance length, .value (t.peek length))
  | .readBytes out length =>
    (t.advance length, .array ((out.val.tape out.property).append (t.peek length)) (t.peek length).length)
  | .readPosition value => (t.moveTo value, .done)
  | .truncate _ => (Tape.empty, .done)
  | .cutHead length out => (t.cutHead length, .buffer (out.map (Block.overwrite · (headPart t length))) 0)
  | .cutHeadArray length out =>
    (t.cutHead length, .array ((out.val.tape out.property).append (headPart t length)) 0)
  | .cutTail length out => (t.cutTail length, .buffer (out.map (Block.overwrite · (tailPart t length))) 0)
  | .cutTailArray length out =>
    (t.cutTail length, .array ((out.val.tape out.property).append (tailPart t length)) 0)

/-- Sizes stay below `2 ^ 62`, and caller buffers hold what is copied into them. -/
def Fits (t : Tape UInt8) (c : Call) : Prop :=
  match c.op with
  | .operatorShl val => t.content.length + val.length < 2 ^ 62
  | .operatorShlArray other => t.content.length + other.val.content.length < 2 ^ 62
  | .operatorShlString val => t.content.length + (stringBytes val).length < 2 ^ 62
  | .writeData inData => t.content.length + (inData.getD []).length < 2 ^ 62
  | .writeEmptyData length => t.content.length + length < 2 ^ 62
  | .readData outData length => HasRoom outData (readLength t length)
  | .readBytes out length => out.val.content.length + (t.peek length).length < 2 ^ 62
  | .truncate resetSize => resetSize < 2 ^ 62
  | .cutHead length out => HasRoom out (headPart t length).length
  | .cutHeadArray length out => out.val.content.length + (headPart t length).length < 2 ^ 62
  | .cutTail length out => HasRoom out (tailPart t length).length
  | .cutTailArray length out => out.val.content.length + (tailPart t length).length < 2 ^ 62
  | .readNumber _ | .operatorShr _ | .readString _ | .readPosition _ => True

/-- The result of a call on an array and of the same call on its tape: equal, with a target
    array holding the target tape. -/
inductive ResultHolds : Result ByteArray → Result (Tape UInt8) → Prop where
  | done : ResultHolds .done .done
  | value (val : List UInt8) : ResultHolds (.value val) (.value val)
  | buffer (out : Option (List UInt8)) (count : Nat) :
      ResultHolds (.buffer out count) (.buffer out count)
  | array {out : ByteArray} {u : Tape UInt8} (h : Holds out u) (count : Nat) :
      ResultHolds (.array out count) (.array u count)

/-- **One call.** -/
theorem step_refines (b : ByteArray) (t : Tape UInt8) (c : Call) (h : Holds b t) (hfit : Fits t c) :
    ∃ b' r, step b c = some (b', r) ∧ Holds b' (specStep t c).1 ∧ ResultHolds r (specStep t c).2 := by
  obtain ⟨fresh, op⟩ := c
  cases op with
  | operatorShl val =>
    obtain ⟨b', hb', h'⟩ := operatorShl_spec fresh h val hfit
    exact ⟨b', .done, by simp only [step, hb', Option.map_some], h', .done⟩
  | operatorShlArray other =>
    obtain ⟨b', hb', h'⟩ := operatorShlArray_spec fresh h other.property hfit
    exact ⟨b', .done, by simp only [step, hb', Option.map_some], h', .done⟩
  | operatorShlString val =>
    obtain ⟨b', hb', h'⟩ := operatorShlString_spec fresh h hfit
    exact ⟨b', .done, by simp only [step, hb', Option.map_some], h', .done⟩
  | writeData inData =>
    obtain ⟨b', hb', h'⟩ := writeData_spec fresh h inData hfit
    exact ⟨b', .done, by simp only [step, hb', Option.map_some], h', .done⟩
  | writeEmptyData length =>
    obtain ⟨b', hb', h'⟩ := writeEmptyData_spec fresh h hfit
    exact ⟨b', .done, by simp only [step, hb', Option.map_some], h', .done⟩
  | readNumber typeSize =>
    obtain ⟨b', hb', h'⟩ := readNumber_spec h typeSize
    exact ⟨b', _, by simp only [step, hb', Option.map_some], h', .value _⟩
  | operatorShr val =>
    obtain ⟨b', hb', h'⟩ := operatorShr_spec h val
    exact ⟨b', _, by simp only [step, hb', Option.map_some], h', .value _⟩
  | readData outData length =>
    cases outData with
    | none => exact ⟨b, _, rfl, h, .buffer none 0⟩
    | some buf =>
      obtain ⟨b', hb', h'⟩ := readData_spec h (hfit buf rfl)
      exact ⟨b', _, by simp only [step, hb', Option.map_some], h', .buffer _ _⟩
  | readString length =>
    obtain ⟨b', hb', h'⟩ := readString_spec h length
    exact ⟨b', _, by simp only [step, hb', Option.map_some], h', .value _⟩
  | readBytes out length =>
    obtain ⟨b', out', hb', h', ho'⟩ := readBytes_spec fresh h (holds_tape out.property) hfit
    exact ⟨b', _, by simp only [step, hb', Option.map_some], h', .array ho' _⟩
  | readPosition value => exact ⟨_, .done, rfl, readPosition_spec h value, .done⟩
  | truncate resetSize => exact ⟨_, .done, rfl, truncate_spec fresh h hfit, .done⟩
  | cutHead length out =>
    obtain ⟨b', hb', h'⟩ := cutHead_spec h length out hfit
    exact ⟨b', _, by simp only [step, hb', Option.map_some, headPart], h', .buffer _ 0⟩
  | cutHeadArray length out =>
    obtain ⟨b', out', hb', h', ho'⟩ := cutHeadArray_spec fresh h (holds_tape out.property) hfit
    exact ⟨b', _, by simp only [step, hb', Option.map_some], h', .array ho' 0⟩
  | cutTail length out =>
    obtain ⟨b', hb', h'⟩ := cutTail_spec h hfit
    exact ⟨b', _, by simp only [step, hb', Option.map_some, tailPart], h', .buffer _ 0⟩
  | cutTailArray length out =>
    obtain ⟨b', out', hb', h', ho'⟩ := cutTailArray_spec fresh h (holds_tape out.property) hfit
    exact ⟨b', _, by simp only [step, hb', Option.map_some], h', .array ho' 0⟩

/-- **An owned, writable array is a byte list with a read cursor.**  Every run of calls on a
newly built array is defined, hands back what the same calls on the empty tape hand back, and
leaves the array holding the tape, with `readPos ≤ writePos ≤ capacity`. -/
theorem byteArray_refines_tape {n : Nat} (hn : n < 2 ^ 62) (calls : List Call)
    (hfits : Admissible specStep Fits Tape.empty calls) :
    ∃ b rs, runOps step (ofLength n) calls = some (b, rs) ∧
      b.content = (specRun specStep Tape.empty calls).1.content ∧
      b.readPos = (specRun specStep Tape.empty calls).1.cursor ∧
      List.Forall₂ ResultHolds rs (specRun specStep Tape.empty calls).2 ∧
      b.readPos ≤ b.writePos ∧ b.writePos ≤ b.capacity := by
  obtain ⟨b, rs, hrun, h, hrs⟩ :=
    runOps_refines step_refines calls (ofLength n) Tape.empty (ofLength_holds hn) hfits
  exact ⟨b, rs, hrun, h.content_eq, h.cursor_eq, hrs, h.owned.read_le, h.owned.write_le⟩

/-- A block of one byte grows under a write of three, one byte is read, and both ends are cut. -/
theorem byteArray_refines_tape_cuts :
    ∃ b rs, runOps step (ofLength 1)
        [⟨fun _ => 7, .operatorShl [1, 2, 3]⟩, ⟨fun _ => 0, .readNumber 1⟩,
          ⟨fun _ => 0, .cutHead 2 (some [9, 9])⟩, ⟨fun _ => 0, .cutTail 5 none⟩] = some (b, rs) ∧
      b.content = [] ∧ b.readPos = 0 := by
  obtain ⟨b, rs, hrun, hc, hp, -⟩ := byteArray_refines_tape (n := 1) (by decide)
    [⟨fun _ => 7, .operatorShl [1, 2, 3]⟩, ⟨fun _ => 0, .readNumber 1⟩,
      ⟨fun _ => 0, .cutHead 2 (some [9, 9])⟩, ⟨fun _ => 0, .cutTail 5 none⟩]
    ⟨(by decide : 0 + 3 < 2 ^ 62), trivial,
      fun _ hbuf => Option.some.inj hbuf ▸ List.length_take_le 2 _,
      ⟨fun _ hbuf => absurd hbuf (Option.not_mem_none _), trivial⟩⟩
  exact ⟨b, rs, hrun, hc, hp⟩

end Libws.Core.ByteArray
