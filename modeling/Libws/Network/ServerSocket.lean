import Libws.Core.ByteArrayTape

/-!
# The send queue of a client (Linux server)

Model of `Client::send`, `ServerSocket::flushClient` and `ServerSocket::writeFromBuffer` of
`wsNetwork/src/ServerSocket.cpp`.  All of them run under `writerMtx`, so a run of a connection is
a list of whole calls.

* The results of the system call `send` are a function of the number of the call and of the
  length passed; a count is never more than that length.
* The loop of `writeFromBuffer` counts its tests down from `fuel`; it is undefined if they run out.
* `writeFromBuffer_spec` — one call ends, and splits what is queued into what it hands to the
  system and what it leaves;
* `no_byte_lost_or_reordered` — every run of calls.
-/

set_option autoImplicit false

namespace Libws.Network

open Libws.Machine

def BUFFER_SIZE : Nat := 4096

/-- The outcome of `send(socket, buf, length, 0)`. -/
inductive SendResult (length : Nat) where
  | sent (sentLength : Nat) (h : sentLength ≤ length)
  | wouldBlock
  | failed

/-- The results of the system calls that one `writeFromBuffer` makes. -/
abbrev Os := (call : Nat) → (length : Nat) → SendResult length

structure Client where
  writerBuffer : Core.ByteArray
  isClosing : Bool

namespace Client

/-- The constructor. -/
def new : Client := { writerBuffer := Core.ByteArray.ofLength BUFFER_SIZE, isClosing := false }

/-- `send(const void*, size_t)`. -/
def send (fresh : Nat → UInt8) (client : Client) (data : Option (List UInt8)) : Option Client :=
  (client.writerBuffer.writeData fresh data).map ({ client with writerBuffer := · })

/-- `send(const ByteArray&)`. -/
def sendPacket (fresh : Nat → UInt8) (client : Client) (packet : Core.ByteArray) : Option Client :=
  (client.writerBuffer.operatorShlArray fresh packet).map ({ client with writerBuffer := · })

end Client

/-- The loop `while (available)`: the client where it stops, and the bytes that the system took. -/
def sendLoop (os : Os) : (fuel : Nat) → (call : Nat) → Client → (available : Nat) →
    Option (Client × List UInt8)
  | 0, _, _, _ => none
  | fuel + 1, call, client, available =>
    if available = 0 then some (client, []) else
    let bytes := client.writerBuffer
    let length := if available > BUFFER_SIZE then BUFFER_SIZE else available
    match Block.read bytes.data bytes.readPos length with
    | none => none
    | some chunk =>
      match os call length with
      | .failed => some ({ client with isClosing := true }, [])
      | .wouldBlock => some (client, [])
      | .sent sentLength _ =>
        let client := { client with writerBuffer := bytes.seek sentLength }
        if sentLength < length then some (client, chunk.take sentLength)
        else
          -- the new `available` is a `uint32_t` again
          (sendLoop os fuel (call + 1) client (client.writerBuffer.readAvailable % 2 ^ 32)).map
            fun (client, rest) => (client, chunk.take sentLength ++ rest)

/-- `writeFromBuffer`, with the bytes that the system took. -/
def writeFromBuffer (os : Os) (client : Client) : Option (Client × List UInt8) :=
  let available := client.writerBuffer.readAvailable % 2 ^ 32
  if available = 0 then some (client, [])
  else
    match sendLoop os (client.writerBuffer.readAvailable + 1) 0 client available with
    | none => none
    | some (client, sent) =>
      (client.writerBuffer.cutHead client.writerBuffer.readPos none).map fun (bytes, _) =>
        ({ client with writerBuffer := bytes }, sent)

def flushClient (os : Os) (client : Client) : Option (Client × List UInt8) := writeFromBuffer os client

/-! ## One call -/

open Libws.Core.ByteArray

/-- **The loop ends**, and what it sent and what is left unread make up what was unread. -/
theorem sendLoop_spec (os : Os) : ∀ (fuel call : Nat) (client : Client) (available : Nat)
    (t : Tape UInt8), Holds client.writerBuffer t → available ≤ t.unread.length →
    t.unread.length < fuel →
    ∃ client' sent t', sendLoop os fuel call client available = some (client', sent) ∧
      Holds client'.writerBuffer t' ∧ t'.content = t.content ∧ sent ++ t'.unread = t.unread := by
  intro fuel
  induction fuel with
  | zero =>
    intro call client available t _ _ hfuel
    omega
  | succ fuel ih =>
    intro call client available t h hav hfuel
    have hlen := t.unread_length
    unfold sendLoop
    split
    · exact ⟨client, [], t, rfl, h, rfl, rfl⟩
    rename_i hsome
    simp only
    generalize hlength : (if available > BUFFER_SIZE then BUFFER_SIZE else available) = length
    have hpos : 0 < length := by rw [← hlength]; unfold BUFFER_SIZE; split <;> omega
    have hle : length ≤ available := by rw [← hlength]; split <;> omega
    have hfit : t.cursor + length ≤ t.content.length := by omega
    obtain ⟨hread, -⟩ := h.read_cursor hfit
    rw [hread]
    simp only
    cases os call length with
    | failed => exact ⟨_, [], t, rfl, h, rfl, rfl⟩
    | wouldBlock => exact ⟨client, [], t, rfl, h, rfl, rfl⟩
    | sent sentLength hsent =>
      have hseek := seek_spec h (Nat.le_trans (Nat.add_le_add_left hsent _) hfit)
      have hchunk : (t.peek length).take sentLength = t.peek sentLength := by
        rw [Tape.peek, List.take_take, Nat.min_eq_left hsent]
        rfl
      have hsplit := t.peek_append_rest sentLength
      simp only [hchunk]
      split
      · exact ⟨_, _, _, rfl, hseek, rfl, hsplit⟩
      · rename_i hfull
        have hrest : (t.advance sentLength).unread.length < fuel := by
          have hsplitLen := congrArg List.length hsplit
          rw [List.length_append, Tape.peek_length] at hsplitLen
          omega
        obtain ⟨client', sent, t', hrun, h', hcontent, hunread⟩ :=
          ih (call + 1) { client with writerBuffer := client.writerBuffer.seek sentLength }
            ((client.writerBuffer.seek sentLength).readAvailable % 2 ^ 32) (t.advance sentLength) hseek
            (by rw [hseek.readAvailable_eq, ← Tape.unread_length]; exact Nat.mod_le _ _) hrest
        refine ⟨client', t.peek sentLength ++ sent, t', by rw [hrun]; rfl, h', hcontent, ?_⟩
        rw [List.append_assoc, hunread, hsplit]

/-- Between calls the read position is at the start, so the queue is the whole content. -/
def Pending (client : Client) (queue : List UInt8) : Prop :=
  Holds client.writerBuffer ⟨queue, 0, Nat.zero_le _⟩

/-- **`writeFromBuffer` ends**, and what it sent and what it leaves make up the queue. -/
theorem writeFromBuffer_spec (os : Os) {client : Client} {queue : List UInt8}
    (h : Pending client queue) :
    ∃ client' sent queue', writeFromBuffer os client = some (client', sent) ∧
      Pending client' queue' ∧ sent ++ queue' = queue := by
  have hav := h.readAvailable_eq
  simp only [writeFromBuffer]
  split
  · exact ⟨client, [], queue, rfl, h, rfl⟩
  · obtain ⟨client', sent, t', hrun, h', hcontent, hunread⟩ :=
      sendLoop_spec os (client.writerBuffer.readAvailable + 1) 0 client
        (client.writerBuffer.readAvailable % 2 ^ 32) _ h
        (by rw [Tape.unread_length, hav]; exact Nat.mod_le _ _)
        (by rw [Tape.unread_length, hav]; exact Nat.lt_succ_self _)
    obtain ⟨bytes, hcut, hbytes⟩ := cutHead_spec h' client'.writerBuffer.readPos none
      (fun _ hnone => absurd hnone (Option.not_mem_none _))
    rw [hrun]
    simp only [hcut, Option.map_some]
    refine ⟨_, sent, t'.unread, rfl, ?_, hunread⟩
    have htape : t'.cutHead client'.writerBuffer.readPos = ⟨t'.unread, 0, Nat.zero_le _⟩ := by
      rw [h'.cursor_eq]
      exact Tape.ext rfl (Nat.sub_self _)
    unfold Pending
    rw [← htape]
    exact hbytes

/-! ## Runs of calls -/

inductive Event where
  | send (fresh : Nat → UInt8) (data : Option (List UInt8))
  | sendPacket (fresh : Nat → UInt8) (packet : ReadableArray)
  | flushClient (os : Os)
  | epollOut (os : Os)

/-- The data that a call passes to `send`. -/
def Event.data : Event → List UInt8
  | .send _ data => data.getD []
  | .sendPacket _ packet => packet.val.content
  | .flushClient _ | .epollOut _ => []

/-- One call, with the bytes that the system took. -/
def step (client : Client) : Event → Option (Client × List UInt8)
  | .send fresh data => (client.send fresh data).map (·, [])
  | .sendPacket fresh packet => (client.sendPacket fresh packet.val).map (·, [])
  | .flushClient os => Network.flushClient os client
  | .epollOut os => writeFromBuffer os client

/-- Every call that ends passes the queue on. -/
theorem step_inv {client client' : Client} {queue sent : List UInt8} (h : Pending client queue)
    (event : Event) (hrun : step client event = some (client', sent)) :
    ∃ queue', Pending client' queue' ∧ sent ++ queue' = queue ++ event.data := by
  have hwrite : ∀ os, writeFromBuffer os client = some (client', sent) →
      ∃ queue', Pending client' queue' ∧ sent ++ queue' = queue ++ [] := by
    intro os hrun
    obtain ⟨c, s, queue', hrun', h', hsplit⟩ := writeFromBuffer_spec os h
    rw [hrun] at hrun'
    cases hrun'
    exact ⟨queue', h', by rw [hsplit, List.append_nil]⟩
  have hsend : ∀ fresh data, (client.send fresh data).map (·, []) = some (client', sent) →
      ∃ queue', Pending client' queue' ∧ sent ++ queue' = queue ++ data.getD [] := by
    intro fresh data hrun
    obtain ⟨c, hc, heq⟩ := Option.map_eq_some_iff.mp hrun
    obtain ⟨bytes, hbytes, rfl⟩ := Option.map_eq_some_iff.mp hc
    cases heq
    exact ⟨_, writeData_inv h hbytes, rfl⟩
  cases event with
  | send fresh data => exact hsend fresh data hrun
  | sendPacket fresh packet =>
    have heq : client.sendPacket fresh packet.val = client.send fresh (some packet.val.content) :=
      congrArg (Option.map _) (operatorShlArray_eq fresh packet.property)
    simp only [step, heq] at hrun
    exact hsend fresh _ hrun
  | flushClient os => exact hwrite os hrun
  | epollOut os => exact hwrite os hrun

/-- After the calls `done`, of which the system took `sent`: what is missing is queued. -/
def Passed (client : Client) (done : List Event) (sent : List (List UInt8)) : Prop :=
  ∃ queue, Pending client queue ∧ sent.flatten ++ queue = done.flatMap Event.data

theorem new_passed : Passed Client.new [] [] := ⟨[], ofLength_holds (by decide), rfl⟩

theorem step_passed (client : Client) (done : List Event) (sent : List (List UInt8)) (event : Event)
    (client' : Client) (s : List UInt8) (h : Passed client done sent)
    (hrun : step client event = some (client', s)) : Passed client' (done ++ [event]) (sent ++ [s]) := by
  obtain ⟨queue, hpending, hall⟩ := h
  obtain ⟨queue', hpending', hsplit⟩ := step_inv hpending event hrun
  refine ⟨queue', hpending', ?_⟩
  calc (sent ++ [s]).flatten ++ queue'
      = sent.flatten ++ (s ++ queue') := by simp only [List.flatten_append, List.flatten_singleton,
          List.append_assoc]
    _ = done.flatMap Event.data ++ event.data := by rw [hsplit, ← List.append_assoc, hall]
    _ = (done ++ [event]).flatMap Event.data := by rw [List.flatMap_append, List.flatMap_singleton]

/-- **No byte queued to a client is lost, duplicated or reordered.**  After every run of calls the
bytes that the system took, followed by what is in `writerBuffer`, are all the data passed to
`send`, and the read position is `0`; and there every further `writeFromBuffer` ends. -/
theorem no_byte_lost_or_reordered (events : List Event) (client : Client) (sent : List (List UInt8))
    (hrun : runOps step Client.new events = some (client, sent)) :
    sent.flatten ++ client.writerBuffer.content = events.flatMap Event.data ∧
      client.writerBuffer.readPos = 0 ∧ ∀ os, ∃ r, writeFromBuffer os client = some r := by
  obtain ⟨queue, hpending, hall⟩ := runOps_inv Passed step_passed new_passed hrun
  refine ⟨?_, hpending.cursor_eq, fun os => ?_⟩
  · rw [hpending.content_eq]
    exact hall
  · obtain ⟨c, s, -, hwrite, -⟩ := writeFromBuffer_spec os hpending
    exact ⟨(c, s), hwrite⟩

/-- Two packets over a system that takes two bytes, then none, then one. -/
theorem no_byte_lost_or_reordered_short_writes : ∃ client sent,
    runOps step Client.new
        [.send (fun _ => 0) (some [1, 2, 3]),
          .flushClient (fun _ length => .sent (min 2 length) (Nat.min_le_right _ _)),
          .send (fun _ => 0) (some [4]), .epollOut (fun _ _ => .wouldBlock),
          .epollOut (fun _ length => .sent (min 1 length) (Nat.min_le_right _ _))] =
      some (client, sent) ∧
    sent = [[], [1, 2], [], [], [3]] ∧
    sent.flatten ++ client.writerBuffer.content = [1, 2, 3, 4] := by
  have hsent : (runOps step Client.new
      [.send (fun _ => 0) (some [1, 2, 3]),
        .flushClient (fun _ length => .sent (min 2 length) (Nat.min_le_right _ _)),
        .send (fun _ => 0) (some [4]), .epollOut (fun _ _ => .wouldBlock),
        .epollOut (fun _ length => .sent (min 1 length) (Nat.min_le_right _ _))]).map (·.2) =
      some [[], [1, 2], [], [], [3]] := by
    decide +kernel
  obtain ⟨⟨client, sent⟩, hrun, hs⟩ := Option.map_eq_some_iff.mp hsent
  exact ⟨client, sent, hrun, hs, (no_byte_lost_or_reordered _ client sent hrun).1⟩

end Libws.Network
