import Libws.Network.ServerSocket

/-!
# The send queue of a client (Windows server)

Model of `ServerSocket::flushClient` of the Windows part of `wsNetwork/src/ServerSocket.cpp`, with the buffers
of the `OverlappedData` that it passes to `WSASend`.  `Client::send` is the one of the Linux server.

* `flushLoop_spec` — the loop ends, and posts what was unread, in full buffers but for the last one;
* `posted_in_order` — **every run** of calls posts the data of the clients in order, and leaves nothing behind.
-/

set_option autoImplicit false

namespace Libws.Network.WindowsSend

open Libws.Core Libws.Core.ByteArray Libws.Machine

/-- The loop of `flushClient`, with the buffers that it posts; undefined if it does not end in `fuel` turns. -/
def flushLoop : (fuel : Nat) → Core.ByteArray → (remain : Nat) → Option (Core.ByteArray × List (List UInt8))
  | 0, _, _ => none
  | fuel + 1, writerBuffer, remain =>
    if remain = 0 then some (writerBuffer, [])
    else
      -- `createOverlappedData` has cleared the buffer
      match writerBuffer.readData (some (List.replicate BUFFER_SIZE 0)) BUFFER_SIZE with
      | some (writerBuffer, some buffer, length) =>
        -- `wsabuff.len` is a `ULONG`
        let sendData := buffer.take (length % 2 ^ 32)
        if length ≥ remain then some (writerBuffer, [sendData])
        else
          (flushLoop fuel writerBuffer writerBuffer.readAvailable).map fun (writerBuffer, rest) =>
            (writerBuffer, sendData :: rest)
      | _ => none

def flushClient (client : Client) : Option (Client × List (List UInt8)) :=
  let writerBuffer := client.writerBuffer.readPosition 0
  let remain := writerBuffer.size
  if remain = 0 then some ({ client with writerBuffer := writerBuffer }, [])
  else
    (flushLoop (remain + 1) writerBuffer remain).map fun (writerBuffer, posted) =>
      ({ client with writerBuffer := writerBuffer.clear }, posted)

/-! ## One call -/

/-- The buffers of a list of bytes: all are full but the last one, which is not empty. -/
def Buffers (posted : List (List UInt8)) : Prop :=
  (∀ buffer ∈ posted, 0 < buffer.length ∧ buffer.length ≤ BUFFER_SIZE) ∧
    ∀ buffer ∈ posted.dropLast, buffer.length = BUFFER_SIZE

theorem buffers_cons {buffer : List UInt8} {posted : List (List UInt8)} (hfull : buffer.length = BUFFER_SIZE)
    (h : Buffers posted) : Buffers (buffer :: posted) := by
  refine ⟨?_, ?_⟩
  · intro other hother
    rcases List.mem_cons.mp hother with rfl | hrest
    · simp [hfull, BUFFER_SIZE]
    · exact h.1 other hrest
  · intro other hother
    cases posted with
    | nil => cases hother
    | cons first rest =>
      rw [List.dropLast_cons_cons] at hother
      rcases List.mem_cons.mp hother with rfl | hrest
      · exact hfull
      · exact h.2 other hrest

/-- One turn of the loop posts the next bytes. -/
theorem readData_turn {writerBuffer : Core.ByteArray} {t : Tape UInt8} (h : Holds writerBuffer t) :
    ∃ writerBuffer' buffer, writerBuffer.readData (some (List.replicate BUFFER_SIZE 0)) BUFFER_SIZE =
        some (writerBuffer', some buffer, min BUFFER_SIZE t.unread.length) ∧
      buffer.take (min BUFFER_SIZE t.unread.length) = t.peek (min BUFFER_SIZE t.unread.length) ∧
      Holds writerBuffer' (t.advance (min BUFFER_SIZE t.unread.length)) := by
  have hlength : readLength t BUFFER_SIZE = min BUFFER_SIZE t.unread.length := by
    rw [readLength, if_neg (by decide), Tape.unread_length]
  have hroom : readLength t BUFFER_SIZE ≤ (List.replicate BUFFER_SIZE (0 : UInt8)).length := by
    rw [hlength, List.length_replicate]
    exact Nat.min_le_left ..
  obtain ⟨writerBuffer', hread, hholds⟩ := readData_spec h hroom
  rw [hlength] at hread hholds
  refine ⟨writerBuffer', _, hread, ?_, hholds⟩
  have hpeek : (t.peek (min BUFFER_SIZE t.unread.length)).length = min BUFFER_SIZE t.unread.length := by
    rw [Tape.peek_length, ← Tape.unread_length]
    omega
  rw [Block.overwrite]
  exact List.take_left' hpeek

/-- **The loop ends**, and posts all that was unread. -/
theorem flushLoop_spec (fuel : Nat) : ∀ (writerBuffer : Core.ByteArray) (t : Tape UInt8), Holds writerBuffer t →
    0 < t.unread.length → t.unread.length < fuel →
    ∃ writerBuffer' t' posted, flushLoop fuel writerBuffer t.unread.length = some (writerBuffer', posted) ∧
      Holds writerBuffer' t' ∧ posted.flatten = t.unread ∧ Buffers posted := by
  induction fuel with
  | zero =>
    intro writerBuffer t _ _ hfuel
    omega
  | succ fuel ih =>
    intro writerBuffer t h hpos hfuel
    have hsize : BUFFER_SIZE = 4096 := rfl
    obtain ⟨writerBuffer', buffer, hread, hbuffer, h'⟩ := readData_turn h
    have hulong : min BUFFER_SIZE t.unread.length % 2 ^ 32 = min BUFFER_SIZE t.unread.length :=
      Nat.mod_eq_of_lt (Nat.lt_of_le_of_lt (Nat.min_le_left ..) (by decide))
    have hsplit := t.peek_append_rest (min BUFFER_SIZE t.unread.length)
    have hpeek : (t.peek (min BUFFER_SIZE t.unread.length)).length = min BUFFER_SIZE t.unread.length := by
      rw [Tape.peek_length, ← Tape.unread_length]
      omega
    unfold flushLoop
    rw [if_neg (by omega), hread]
    dsimp only
    rw [hulong, hbuffer]
    by_cases hlast : t.unread.length ≤ BUFFER_SIZE
    · rw [if_pos (by omega)]
      refine ⟨writerBuffer', _, _, rfl, h', ?_, ?_⟩
      · rw [Nat.min_eq_right hlast, List.flatten_singleton]
        exact List.take_length
      · refine ⟨?_, ?_⟩
        · intro other hother
          rw [List.mem_singleton.mp hother, hpeek]
          omega
        · intro other hother
          cases hother
    · rw [if_neg (by omega)]
      have hrest := congrArg List.length hsplit
      rw [List.length_append, hpeek] at hrest
      have hav : writerBuffer'.readAvailable = (t.advance (min BUFFER_SIZE t.unread.length)).unread.length :=
        h'.readAvailable_eq.trans (Tape.unread_length _).symm
      rw [hav]
      obtain ⟨writerBuffer'', t'', posted, hrun, hholds, hflatten, hbuffers⟩ := ih writerBuffer' _ h' (by omega) (by omega)
      rw [hrun]
      refine ⟨writerBuffer'', t'', _, rfl, hholds, ?_, buffers_cons (by rw [hpeek]; omega) hbuffers⟩
      rw [List.flatten_cons, hflatten, hsplit]

/-- **`flushClient` ends**, posts the queue in buffers, and leaves it empty. -/
theorem flushClient_spec {client : Client} {queue : List UInt8} (h : Pending client queue) :
    ∃ client' posted, flushClient client = some (client', posted) ∧ Pending client' [] ∧ posted.flatten = queue ∧
      Buffers posted := by
  have hstart := readPosition_spec h 0
  have hsize : (client.writerBuffer.readPosition 0).size = queue.length := hstart.writePos_eq
  have hunread : (Tape.moveTo (⟨queue, 0, Nat.zero_le _⟩ : Tape UInt8) 0).unread = queue := rfl
  unfold flushClient
  dsimp only
  rw [hsize]
  by_cases hempty : queue.length = 0
  · have hnil := List.eq_nil_of_length_eq_zero hempty
    subst hnil
    refine ⟨{ client with writerBuffer := client.writerBuffer.readPosition 0 }, [], rfl, hstart, rfl, ?_, ?_⟩
    · intro buffer hbuffer
      cases hbuffer
    · intro buffer hbuffer
      cases hbuffer
  · rw [if_neg hempty]
    obtain ⟨writerBuffer', t', posted, hrun, hholds, hflatten, hbuffers⟩ :=
      flushLoop_spec (queue.length + 1) (client.writerBuffer.readPosition 0) _ hstart (by rw [hunread]; omega)
        (by rw [hunread]; omega)
    rw [hunread] at hrun hflatten
    rw [hrun]
    exact ⟨_, posted, rfl, clear_spec hholds, hflatten, hbuffers⟩

/-! ## Runs of calls -/

/-- The calls of a connection, as those of the Linux server. -/
inductive Call where
  | send (fresh : Nat → UInt8) (data : Option (List UInt8))
  | sendPacket (fresh : Nat → UInt8) (packet : ReadableArray)
  | flushClient

def Call.data : Call → List UInt8
  | .send _ data => data.getD []
  | .sendPacket _ packet => packet.val.content
  | .flushClient => []

/-- One call, with the buffers that it posts. -/
def call (client : Client) : Call → Option (Client × List (List UInt8))
  | .send fresh data => (client.send fresh data).map (·, [])
  | .sendPacket fresh packet => (client.sendPacket fresh packet.val).map (·, [])
  | .flushClient => flushClient client

/-- After the calls `done`, which posted `posted`: what is missing is queued. -/
def Posted (client : Client) (done : List Call) (posted : List (List (List UInt8))) : Prop :=
  ∃ queue, Pending client queue ∧ posted.flatten.flatten ++ queue = done.flatMap Call.data ∧
    ∀ buffers ∈ posted, Buffers buffers

/-- What is sent waits for the next `flushClient`. -/
theorem send_queued {client client' : Client} {queue : List UInt8} (h : Pending client queue)
    (event : Network.Event)
    (hrun : Network.step client event = some (client', [])) : Pending client' (queue ++ event.data) := by
  obtain ⟨queue', hpending, hall⟩ := Network.step_inv h event hrun
  rw [List.nil_append] at hall
  rwa [hall] at hpending

theorem call_pending {client client' : Client} {queue : List UInt8} {posted : List (List UInt8)}
    (h : Pending client queue) (c : Call) (hrun : call client c = some (client', posted)) :
    ∃ queue', Pending client' queue' ∧ posted.flatten ++ queue' = queue ++ c.data ∧ Buffers posted := by
  have hnone : Buffers [] := by simp [Buffers]
  cases c with
  | send fresh data =>
    obtain ⟨sender, hsend, heq⟩ := Option.map_eq_some_iff.mp hrun
    cases heq
    refine ⟨queue ++ data.getD [], send_queued h (.send fresh data) ?_, rfl, hnone⟩
    simp [Network.step, hsend]
  | sendPacket fresh packet =>
    obtain ⟨sender, hsend, heq⟩ := Option.map_eq_some_iff.mp hrun
    cases heq
    refine ⟨queue ++ packet.val.content, send_queued h (.sendPacket fresh packet) ?_, rfl, hnone⟩
    simp [Network.step, hsend]
  | flushClient =>
    obtain ⟨flushed, buffers, hflush, hpending, hflatten, hbuffers⟩ := flushClient_spec h
    cases hrun.symm.trans hflush
    refine ⟨[], hpending, ?_, hbuffers⟩
    simp [hflatten, Call.data]

theorem call_posted (client : Client) (done : List Call) (posted : List (List (List UInt8))) (c : Call)
    (client' : Client) (buffers : List (List UInt8)) (h : Posted client done posted)
    (hrun : call client c = some (client', buffers)) : Posted client' (done ++ [c]) (posted ++ [buffers]) := by
  obtain ⟨queue, hpending, hall, hbuffers⟩ := h
  obtain ⟨queue', hpending', hsplit, hnew⟩ := call_pending hpending c hrun
  refine ⟨queue', hpending', ?_, ?_⟩
  · calc (posted ++ [buffers]).flatten.flatten ++ queue'
        = posted.flatten.flatten ++ (buffers.flatten ++ queue') := by simp
      _ = done.flatMap Call.data ++ c.data := by rw [hsplit, ← List.append_assoc, hall]
      _ = (done ++ [c]).flatMap Call.data := by simp
  · intro other hother
    rcases List.mem_append.mp hother with hold | hlast
    · exact hbuffers other hold
    · rw [List.mem_singleton.mp hlast]
      exact hnew

theorem new_posted : Posted Client.new [] [] := by
  refine ⟨[], ofLength_holds (by decide), rfl, ?_⟩
  simp

/-- **No byte is lost, duplicated or reordered on Windows either.**  After every run of calls the buffers passed
to `WSASend`, one after the other, and what is in `writerBuffer` are all the data passed to `send`; each call
posts full buffers but for its last one, which is not empty; and the next `flushClient` ends and posts all that
is left. -/
theorem posted_in_order (calls : List Call) (client : Client) (posted : List (List (List UInt8)))
    (hrun : runOps call Client.new calls = some (client, posted)) :
    posted.flatten.flatten ++ client.writerBuffer.content = calls.flatMap Call.data ∧
      (∀ buffers ∈ posted, Buffers buffers) ∧
      ∃ client' buffers, flushClient client = some (client', buffers) ∧ client'.writerBuffer.content = [] ∧
        buffers.flatten = client.writerBuffer.content ∧ Buffers buffers := by
  obtain ⟨queue, hpending, hall, hbuffers⟩ := runOps_inv Posted call_posted new_posted hrun
  obtain ⟨client', buffers, hflush, hempty, hflatten, hlast⟩ := flushClient_spec hpending
  refine ⟨?_, hbuffers, client', buffers, hflush, hempty.content_eq, ?_, hlast⟩
  · rw [hpending.content_eq]
    exact hall
  · rw [hpending.content_eq]
    exact hflatten

/-- Two calls of `send` are posted as one buffer, and a third one waits. -/
theorem posted_in_order_waiting : ∃ client posted,
    runOps call Client.new [.send (fun _ => 0) (some [1, 2]), .send (fun _ => 0) (some [3]), .flushClient,
      .send (fun _ => 0) (some [4])] = some (client, posted) ∧ posted = [[], [], [[1, 2, 3]], []] ∧
    posted.flatten.flatten ++ client.writerBuffer.content = [1, 2, 3, 4] := by
  have hposted : (runOps call Client.new [.send (fun _ => 0) (some [1, 2]), .send (fun _ => 0) (some [3]), .flushClient,
      .send (fun _ => 0) (some [4])]).map (·.2) = some [[], [], [[1, 2, 3]], []] := by decide +kernel
  obtain ⟨⟨client, posted⟩, hrun, heq⟩ := Option.map_eq_some_iff.mp hposted
  exact ⟨client, posted, hrun, heq, (posted_in_order _ client posted hrun).1⟩

end Libws.Network.WindowsSend
