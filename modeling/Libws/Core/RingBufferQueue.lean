import Libws.Lib.Machine
import Libws.Core.RingBuffer

/-!
# `RingBuffer` refines an unbounded FIFO byte queue

The calls on one ring buffer as an operation machine (`Call`, `step`), and the same calls on a
byte queue (`specStep`): writes append, reads take from the front, `expand` does nothing and
`truncate` empties.  `Fits` bounds the sizes by `2 ^ 62` and asks for caller buffers that are
large enough.

* `step_refines` — one call on a buffer that holds a queue;
* `ringBuffer_refines_queue` — every run from a newly constructed buffer.
-/

set_option autoImplicit false

namespace Libws.Core.RingBuffer

open Libws.Machine

inductive Op where
  | writeData (inData : Option (List UInt8))
  | operatorShl (val : List UInt8)
  | readData (outData : Option (List UInt8)) (length : Nat)
  | expand (size : Nat)
  | truncate (resize : Bool)

/-- A call, with what the allocator leaves in the bytes that it adds during the call. -/
structure Call where
  fresh : Nat → UInt8
  op : Op

/-- The caller's buffer and the count returned; no buffer and `0` for a function without result. -/
abbrev Result := Option (List UInt8) × Nat

def step (rb : RingBuffer) (c : Call) : Option (RingBuffer × Result) :=
  match c.op with
  | .writeData inData => (rb.writeData c.fresh inData).map (·, (none, 0))
  | .operatorShl val => (rb.operatorShl c.fresh val).map (·, (none, 0))
  | .readData outData length => rb.readData outData length
  | .expand size => (rb.expand c.fresh size).map (·, (none, 0))
  | .truncate resize => some (rb.truncate c.fresh resize, (none, 0))

/-- The calls on a byte queue. -/
def specStep (q : List UInt8) (c : Call) : List UInt8 × Result :=
  match c.op with
  | .writeData inData => (q ++ inData.getD [], (none, 0))
  | .operatorShl val => (q ++ val, (none, 0))
  | .readData none _ => (q, (none, 0))
  | .readData (some buf) length =>
    (q.drop (readLength q length),
      (some (Block.overwrite buf (q.take (readLength q length))), readLength q length))
  | .expand _ => (q, (none, 0))
  | .truncate _ => ([], (none, 0))

/-- Sizes stay below `2 ^ 62`, and caller buffers hold what is copied into them. -/
def Fits (q : List UInt8) (c : Call) : Prop :=
  match c.op with
  | .writeData inData => q.length + (inData.getD []).length < 2 ^ 62
  | .operatorShl val => q.length + val.length < 2 ^ 62
  | .readData none _ => True
  | .readData (some buf) length => readLength q length ≤ buf.length
  | .expand size => size < 2 ^ 62
  | .truncate _ => True

/-- **One call.** -/
theorem step_refines (rb : RingBuffer) (q : List UInt8) (c : Call) (h : Holds rb q) (hfit : Fits q c) :
    ∃ rb' r, step rb c = some (rb', r) ∧ Holds rb' (specStep q c).1 ∧ r = (specStep q c).2 := by
  obtain ⟨fresh, op⟩ := c
  cases op with
  | writeData inData =>
    obtain ⟨rb', hrb', h'⟩ := writeData_spec fresh h inData hfit
    exact ⟨rb', (none, 0), by simp only [step, hrb', Option.map_some], h', rfl⟩
  | operatorShl val =>
    obtain ⟨rb', hrb', h'⟩ := writeData_spec fresh h (some val) hfit
    exact ⟨rb', (none, 0), by simp only [step, operatorShl, hrb', Option.map_some], h', rfl⟩
  | readData outData length =>
    cases outData with
    | none => exact ⟨rb, _, rfl, h, rfl⟩
    | some buf =>
      obtain ⟨rb', hrb', h'⟩ := readData_spec h hfit
      exact ⟨rb', _, hrb', h', rfl⟩
  | expand size =>
    obtain ⟨rb', hrb', h', -⟩ := expand_spec fresh h size (Nat.le_of_lt hfit)
    exact ⟨rb', (none, 0), by simp only [step, hrb', Option.map_some], h', rfl⟩
  | truncate resize => exact ⟨_, _, rfl, truncate_spec fresh h resize, rfl⟩

/-- **A ring buffer is an unbounded FIFO byte queue.**  Every run of calls on a newly constructed
buffer is defined and returns what the same calls on the empty queue return; the buffer then
holds the queue, counts it, and keeps its positions inside the block with one cell free. -/
theorem ringBuffer_refines_queue (calls : List Call) (hfits : Admissible specStep Fits [] calls) :
    ∃ rb rs, runOps step new calls = some (rb, rs) ∧
      rb.content = (specRun specStep [] calls).1 ∧ rs = (specRun specStep [] calls).2 ∧
      rb.used = (specRun specStep [] calls).1.length ∧
      rb.readPos < rb.capacity ∧ rb.writePos < rb.capacity ∧
      rb.used + rb.available + 1 = rb.capacity := by
  obtain ⟨rb, rs, hrun, h, hrs⟩ := runOps_refines step_refines calls new [] new_holds hfits
  exact ⟨rb, rs, hrun, h.content_eq, List.forall₂_eq_eq_eq ▸ hrs, h.used_eq, h.inv.read_lt,
    h.inv.write_lt, h.used_add_available⟩

/-- Four bytes are written, three are read, and the block is grown in between. -/
theorem ringBuffer_refines_queue_run :
    ∃ rb rs, runOps step new
        [⟨fun _ => 7, .operatorShl [1, 2, 3, 4]⟩, ⟨fun _ => 7, .expand 5000⟩,
          ⟨fun _ => 0, .readData (some [0, 0, 0]) 3⟩] = some (rb, rs) ∧
      rb.content = [4] ∧ rs = [(none, 0), (none, 0), (some [1, 2, 3], 3)] := by
  obtain ⟨rb, rs, hrun, hc, hr, -⟩ := ringBuffer_refines_queue
    [⟨fun _ => 7, .operatorShl [1, 2, 3, 4]⟩, ⟨fun _ => 7, .expand 5000⟩,
      ⟨fun _ => 0, .readData (some [0, 0, 0]) 3⟩]
    (by simp [Admissible, Fits, specStep, readLength])
  exact ⟨rb, rs, hrun, hc, hr⟩

end Libws.Core.RingBuffer
