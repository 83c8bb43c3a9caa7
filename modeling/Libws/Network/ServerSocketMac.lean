import Libws.Network.ServerSocket

/-!
# The send queue of a client (macOS server)

Model of the macOS versions of `ServerSocket::flushClient` and `ServerSocket::writeFromBuffer`
(`wsNetwork/src/ServerSocket.cpp`); `Client` is the one of `Libws.Network.ServerSocket`.

* `kqueue` passes to `writeFromBuffer` how much the system would take; the result of its one call of
  `send` is a function of the length passed.
* `writeFromBuffer_loses_nothing_iff` — the bytes cut off are those asked to be sent, whatever the system took;
* `run_pending` — the read position is `0` between calls.
-/

set_option autoImplicit false

namespace Libws.Network.Mac

open Libws.Machine Libws.Core.ByteArray

/-- The outcome of `send(socket, buf, length, 0)`, by the length passed. -/
abbrev Os := (length : Nat) → { sentLength : Int // sentLength = -1 ∨ 0 ≤ sentLength ∧ sentLength ≤ length }

def Os.send (os : Os) (length : Nat) : Int := (os length).val

/-- `writeFromBuffer`, with the bytes that the system took. -/
def writeFromBuffer (os : Os) (client : Client) (limitLength : UInt32) : Option (Client × List UInt8) :=
  if client.isClosing then some (client, [])
  else
    let bytes := client.writerBuffer
    let available := bytes.readAvailable % 2 ^ 32
    if available = 0 then some (client, [])
    else
      let available := if available > limitLength.toNat then limitLength.toNat else available
      match Block.read bytes.data bytes.readPos available with
      | none => none
      | some chunk =>
        -- a `length` that is too small is only logged
        let length := os.send available
        (bytes.cutHead available none).map fun (bytes, _) =>
          ({ client with writerBuffer := bytes }, chunk.take length.toNat)

/-- `flushClient` only asks `kqueue` for the event. -/
def flushClient (client : Client) : Client := client

/-- How much one call asks the system to send. -/
def asked (client : Client) (limitLength : UInt32) : Nat :=
  min (client.writerBuffer.size % 2 ^ 32) limitLength.toNat

/-! ## One call -/

theorem Pending.size_eq {client : Client} {queue : List UInt8} (h : Pending client queue) :
    client.writerBuffer.size = queue.length := Holds.writePos_eq h

/-- **What a call does**: the bytes asked to be sent leave the queue, and the system has taken the first part
of them. -/
theorem writeFromBuffer_spec (os : Os) {client : Client} {queue : List UInt8} (h : Pending client queue)
    (limitLength : UInt32) (hclosing : client.isClosing = false) :
    ∃ client', writeFromBuffer os client limitLength =
        some (client', queue.take (min (asked client limitLength) (os.send (asked client limitLength)).toNat)) ∧
      Pending client' (queue.drop (asked client limitLength)) := by
  have hav : client.writerBuffer.readAvailable = queue.length := h.readAvailable_eq
  have hasked : asked client limitLength = min (queue.length % 2 ^ 32) limitLength.toNat := by
    rw [asked, Pending.size_eq h]
  have hle : asked client limitLength ≤ queue.length := by
    rw [hasked]
    exact Nat.le_trans (Nat.min_le_left _ _) (Nat.mod_le _ _)
  have hlimit : (if queue.length % 2 ^ 32 > limitLength.toNat then limitLength.toNat else queue.length % 2 ^ 32) =
      asked client limitLength := by
    rw [hasked]
    split <;> omega
  rw [writeFromBuffer, hclosing]
  simp only [Bool.false_eq_true, if_false, hav, hlimit]
  split
  · rename_i hzero
    have hnothing : asked client limitLength = 0 := by rw [hasked, hzero, Nat.zero_min]
    rw [hnothing]
    exact ⟨client, by rw [Nat.zero_min, List.take_zero], h⟩
  · obtain ⟨hread, -⟩ := h.read_cursor (n := asked client limitLength) (by simpa using hle)
    obtain ⟨bytes, hcut, hbytes⟩ :=
      cutHead_spec h (asked client limitLength) none (fun _ hnone => absurd hnone (Option.not_mem_none _))
    rw [hread]
    simp only [hcut, Option.map_some]
    refine ⟨_, by rw [Tape.peek, List.take_take, Nat.min_comm]; rfl, ?_⟩
    have htape : Tape.cutHead ⟨queue, 0, Nat.zero_le _⟩ (asked client limitLength) =
        ⟨queue.drop (asked client limitLength), 0, Nat.zero_le _⟩ := Tape.ext rfl (Nat.zero_sub _)
    unfold Pending
    rw [← htape]
    exact hbytes

/-- What the system took, and what is left, are what there was. -/
def LosesNothing (os : Os) (client : Client) (limitLength : UInt32) : Prop :=
  ∃ client' sent, writeFromBuffer os client limitLength = some (client', sent) ∧
    sent ++ client'.writerBuffer.content = client.writerBuffer.content

/-- **A call loses nothing exactly when the system takes all that it is asked to send.** -/
theorem writeFromBuffer_loses_nothing_iff (os : Os) (client : Client) (queue : List UInt8) (limitLength : UInt32)
    (h : Pending client queue) : LosesNothing os client limitLength ↔
      (client.isClosing = true ∨ asked client limitLength = 0 ∨
        os.send (asked client limitLength) = asked client limitLength) := by
  have hbefore : client.writerBuffer.content = queue := h.content_eq
  have hsize : asked client limitLength ≤ queue.length := by
    rw [asked, Pending.size_eq h]
    exact Nat.le_trans (Nat.min_le_left _ _) (Nat.mod_le _ _)
  unfold LosesNothing
  by_cases hclosing : client.isClosing = true
  · refine iff_of_true ⟨client, [], ?_, rfl⟩ (Or.inl hclosing)
    rw [writeFromBuffer, if_pos hclosing]
  · obtain ⟨client', hrun, h'⟩ := writeFromBuffer_spec os h limitLength (eq_false_of_ne_true hclosing)
    have hafter : client'.writerBuffer.content = queue.drop (asked client limitLength) := h'.content_eq
    have hcount : os.send (asked client limitLength) = -1 ∨
        0 ≤ os.send (asked client limitLength) ∧ os.send (asked client limitLength) ≤ asked client limitLength :=
      (os (asked client limitLength)).property
    generalize hlength : os.send (asked client limitLength) = length at hrun hcount ⊢
    constructor
    · rintro ⟨client'', sent, hrun', hall⟩
      cases hrun.symm.trans hrun'
      rw [hbefore, hafter] at hall
      have hlen := congrArg List.length hall
      rw [List.length_append, List.length_take, List.length_drop] at hlen
      omega
    · intro hcond
      have htaken := hcond.resolve_left hclosing
      refine ⟨client', _, hrun, ?_⟩
      have hwhole : min (asked client limitLength) length.toNat = asked client limitLength := by omega
      rw [hbefore, hafter, hwhole, List.take_append_drop]

theorem writeFromBuffer_loses_nothing_iff_all :
    LosesNothing (fun length => ⟨length, Or.inr (by omega)⟩) ⟨⟨false, false, [1, 2], 0, 2, 2⟩, false⟩ 2 :=
  (writeFromBuffer_loses_nothing_iff _ ⟨⟨false, false, [1, 2], 0, 2, 2⟩, false⟩ [1, 2] 2
    ⟨⟨rfl, rfl, rfl, by decide, by decide, by decide, by decide⟩, rfl, rfl⟩).mpr (Or.inr (Or.inr rfl))

/-- **The system takes one byte of two.** -/
theorem unsent_bytes_lost : ¬ ∀ (os : Os) (client : Client) (queue : List UInt8) (limitLength : UInt32),
    Pending client queue → LosesNothing os client limitLength := by
  intro hclaim
  have h := hclaim (fun length => if h : 1 ≤ length then ⟨1, Or.inr (by omega)⟩ else ⟨-1, Or.inl rfl⟩)
    ⟨⟨false, false, [1, 2], 0, 2, 2⟩, false⟩ [1, 2] 2
      ⟨⟨rfl, rfl, rfl, by decide, by decide, by decide, by decide⟩, rfl, rfl⟩
  obtain ⟨client', sent, hrun, hall⟩ := h
  have hsent := congrArg (Option.map fun r => r.2 ++ r.1.writerBuffer.content) hrun
  rw [Option.map_some, hall] at hsent
  exact absurd hsent (by decide)

/-! ## Runs of calls -/

inductive Event where
  | send (fresh : Nat → UInt8) (data : Option (List UInt8))
  | sendPacket (fresh : Nat → UInt8) (packet : ReadableArray)
  | kick
  | flushClient
  | writable (os : Os) (limitLength : UInt32)

/-- One call, with the bytes that the system took. -/
def step (client : Client) : Event → Option (Client × List UInt8)
  | .send fresh data => (client.send fresh data).map (·, [])
  | .sendPacket fresh packet => (client.sendPacket fresh packet.val).map (·, [])
  | .kick => some ({ client with isClosing := true }, [])
  | .flushClient => some (flushClient client, [])
  | .writable os limitLength => writeFromBuffer os client limitLength

/-- No call moves the read position. -/
theorem step_pending {client client' : Client} {sent : List UInt8}
    (h : ∃ queue, Pending client queue) (event : Event)
    (hrun : step client event = some (client', sent)) : ∃ queue, Pending client' queue := by
  obtain ⟨queue, h⟩ := h
  have hsend : ∀ fresh data, (client.send fresh data).map (·, ([] : List UInt8)) = some (client', sent) →
      ∃ queue, Pending client' queue := by
    intro fresh data hrun
    obtain ⟨c, hc, heq⟩ := Option.map_eq_some_iff.mp hrun
    obtain ⟨bytes, hbytes, rfl⟩ := Option.map_eq_some_iff.mp hc
    cases heq
    exact ⟨_, writeData_inv h hbytes⟩
  cases event with
  | send fresh data => exact hsend fresh data hrun
  | sendPacket fresh packet =>
    have heq : client.sendPacket fresh packet.val = client.send fresh (some packet.val.content) :=
      congrArg (Option.map _) (operatorShlArray_eq fresh packet.property)
    simp only [step, heq] at hrun
    exact hsend fresh _ hrun
  | kick =>
    cases hrun
    exact ⟨queue, h⟩
  | flushClient =>
    cases hrun
    exact ⟨queue, h⟩
  | writable os limitLength =>
    by_cases hclosing : client.isClosing = true
    · rw [step, writeFromBuffer, if_pos hclosing] at hrun
      cases hrun
      exact ⟨queue, h⟩
    · obtain ⟨c, hwrite, h'⟩ := writeFromBuffer_spec os h limitLength (eq_false_of_ne_true hclosing)
      cases hwrite.symm.trans hrun
      exact ⟨_, h'⟩

/-- In every run, the queue is the whole content of the buffer. -/
theorem run_pending (events : List Event) (client : Client) (sent : List (List UInt8))
    (hrun : runOps step Client.new events = some (client, sent)) : ∃ queue, Pending client queue := by
  have hnew : ∃ queue, Pending Client.new queue := ⟨[], ofLength_holds (by decide)⟩
  exact runOps_inv (fun client _ _ => ∃ queue, Pending client queue)
    (fun _ _ _ event _ _ h hstep => step_pending h event hstep) hnew hrun

end Libws.Network.Mac
