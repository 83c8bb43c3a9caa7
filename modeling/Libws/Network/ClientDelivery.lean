import Mathlib.Data.List.ReduceOption
import Libws.Lib.Trace
import Libws.Network.ClientSocket

/-!
# What a `ClientSocket` delivers before it reports the close

* `Present`, `Delivered` — a byte was in the buffer of an `onReceived`, and all bytes of a session
  were before its `onClosed`;
* `Orderly` — the worker ends a session only when `update` has looked at its last bytes;
* `Control`, `Kept` — what a step keeps of the two threads and of the bytes;
* `delivers_before_close` — every run of such steps delivers.
-/

set_option autoImplicit false

namespace Libws.Network

open Libws.Machine Libws.Trace Libws.Core.ByteArray

/-- The byte at `i` of all bytes received was in the buffer of an `onReceived`. -/
def Present (received : List UInt8) (out : List (Option ClientEvent)) (i : Nat) : Prop :=
  ∃ first content, some (.onReceived first content) ∈ out ∧ first ≤ i ∧
    ∃ byte, content[i - first]? = some byte ∧ received[i]? = some byte

/-- Before each `onClosed`, all bytes of its session. -/
def Delivered (received : List UInt8) : List (Option ClientEvent) → Prop :=
  Before fun e before => ∀ first last, e = some (.onClosed first last) → ∀ i, first ≤ i → i < last →
    Present received before i

/-- `update` has looked at all bytes that were written, or is about to. -/
def Seen (s : ClientState) : Prop := s.unseen = false ∨ s.main = .receiving

/-- The worker ends a session only when all bytes were looked at. -/
def Orderly (s : ClientState) : ClientAction → Prop
  | .recv .closed => Seen s
  | .tryToSend results => -1 ∈ results → Seen s
  | _ => True

instance (s : ClientState) : Decidable (Seen s) :=
  inferInstanceAs (Decidable (s.unseen = false ∨ s.main = .receiving))

instance (s : ClientState) : DecidablePred (Orderly s)
  | .recv .closed => inferInstanceAs (Decidable (Seen s))
  | .tryToSend results => inferInstanceAs (Decidable (-1 ∈ results → Seen s))
  | .poll | .tryToConnect _ | .recv .nothing | .recv (.data _) | .write _ | .connect | .close | .send .. | .update _ =>
    isTrue trivial

/-- The program does not end the session itself. -/
def Unclosed : ClientAction → Prop
  | .close => False
  | _ => True

instance : DecidablePred Unclosed
  | .close => isFalse id
  | .poll | .tryToConnect _ | .recv _ | .write _ | .tryToSend _ | .connect | .send .. | .update _ => isTrue trivial

/-! ## Presence -/

variable {received : List UInt8} {out : List (Option ClientEvent)} {i : Nat}

theorem Present.mono (h : Present received out i) (more : List UInt8) (rs : List (Option ClientEvent)) :
    Present (received ++ more) (out ++ rs) i := by
  obtain ⟨first, content, hmem, hle, byte, hcontent, hreceived⟩ := h
  have hlt : i < received.length := (List.getElem?_eq_some_iff.mp hreceived).1
  exact ⟨first, content, List.mem_append_left _ hmem, hle, byte, hcontent,
    (List.getElem?_append_left hlt).trans hreceived⟩

theorem Present.concat (h : Present received out i) (r : Option ClientEvent) : Present received (out ++ [r]) i := by
  have hmono := h.mono [] [r]
  rwa [List.append_nil] at hmono

/-- The bytes in the buffer of an `onReceived`. -/
theorem Present.of_content {content : List UInt8} (hlen : content.length ≤ received.length)
    (hcontent : content = received.drop (received.length - content.length))
    (hge : received.length ≤ i + content.length) (hlt : i < received.length) :
    Present received (out ++ [some (.onReceived (received.length - content.length) content)]) i := by
  have hmem : some (ClientEvent.onReceived (received.length - content.length) content) ∈
      out ++ [some (.onReceived (received.length - content.length) content)] :=
    List.mem_append_right _ (List.mem_singleton_self _)
  have hbyte := List.getElem?_eq_getElem hlt
  refine ⟨_, _, hmem, by omega, received[i], ?_, hbyte⟩
  generalize hfirst : received.length - content.length = first at hcontent
  rw [hcontent, List.getElem?_drop, Nat.add_sub_cancel' (by omega)]
  exact hbyte

/-- An event that is no `onClosed`, or one whose session is delivered. -/
theorem Delivered.concat {more : List UInt8} {r : Option ClientEvent} (h : Delivered received out)
    (hclosed : ∀ first last, r = some (.onClosed first last) → ∀ i, first ≤ i → i < last → Present received out i) :
    Delivered (received ++ more) (out ++ [r]) := by
  have hmore : ∀ {before : List (Option ClientEvent)} {i : Nat}, Present received before i →
      Present (received ++ more) before i := fun hpresent => by
    have hmono := hpresent.mono more []
    rwa [List.append_nil] at hmono
  have hold : Delivered (received ++ more) out := Before.imp h fun e before hpast first last he i hi hlt =>
    hmore (hpast first last he i hi hlt)
  exact Before.concat hold fun first last he i hi hlt => hmore (hclosed first last he i hi hlt)

/-! ## Invariants -/

/-- The status that the worker goes by. -/
def WorkerPc.Fits (status : SocketStatus) : WorkerPc → Prop
  | .loop => True
  | .connecting => status = .CONNECTING
  | .receiving | .received _ | .sending => status = .CONNECTED

def MainPc.Resets : MainPc → Prop
  | .resetReader | .resetWriter | .closed => True
  | _ => False

/-- The two threads. -/
structure Control (s : ClientState) : Prop where
  worker : s.worker.Fits s.socket.status
  resets : s.main.Resets → s.socket.status = .DISCONNECTED
  looked : s.main = .cutting → s.unseen = false
  ended : s.socket.status = .DISCONNECTED → Seen s
  began : s.socket.status = .CONNECTING → s.unseen = false

/-- The bytes: the buffer holds the last ones that were received, and all others of the session have
been delivered. -/
structure Kept (s : ClientState) (out : List (Option ClientEvent)) : Prop where
  tape : ∃ t, Holds s.socket.readerBuffer t ∧ (s.main ≠ .cutting → t.cursor = 0)
  length_le : s.socket.readerBuffer.content.length ≤ s.received.length
  content : s.socket.readerBuffer.content =
    s.received.drop (s.received.length - s.socket.readerBuffer.content.length)
  session_le : s.session ≤ s.received.length
  cut : ∀ i, s.session ≤ i → i + s.socket.readerBuffer.content.length < s.received.length → Present s.received out i
  seen : s.unseen = false → ∀ i, s.session ≤ i → i < s.received.length → Present s.received out i

/-- A step that does nothing to the bytes. -/
theorem Kept.same {s s' : ClientState} (h : Kept s out) (r : Option ClientEvent)
    (hbuffer : s'.socket.readerBuffer = s.socket.readerBuffer) (hreceived : s'.received = s.received)
    (hsession : s'.session = s.session) (hunseen : s'.unseen = s.unseen)
    (hmain : s'.main ≠ .cutting → s.main ≠ .cutting) :
    Kept s' (out ++ [r]) := by
  obtain ⟨t, ht, hcursor⟩ := h.tape
  refine ⟨⟨t, hbuffer ▸ ht, fun hne => hcursor (hmain hne)⟩, ?_, ?_, ?_, ?_, ?_⟩
  · rw [hbuffer, hreceived]
    exact h.length_le
  · rw [hbuffer, hreceived]
    exact h.content
  · rw [hsession, hreceived]
    exact h.session_le
  · rw [hbuffer, hreceived, hsession]
    exact fun i hi hlt => (h.cut i hi hlt).concat r
  · rw [hunseen, hreceived, hsession]
    exact fun hseen i hi hlt => (h.seen hseen i hi hlt).concat r

theorem sendRemaining_failed : ∀ (results : List Int) (writerBuffer b : Core.ByteArray) (remain : Nat) (sent : List UInt8),
    ClientSocket.sendRemaining writerBuffer remain results = some (b, false, sent) → -1 ∈ results
  | [], writerBuffer, b, remain, sent, h => by
    unfold ClientSocket.sendRemaining at h
    split at h <;> cases h
  | sentLength :: results, writerBuffer, b, remain, sent, h => by
    unfold ClientSocket.sendRemaining at h
    split at h
    · cases h
    split at h
    · cases h
    split at h
    · rename_i herror
      rw [herror]
      exact List.mem_cons_self ..
    · obtain ⟨⟨b', ok, sent'⟩, hrest, hresult⟩ := Option.map_eq_some_iff.mp h
      cases hresult
      exact List.mem_cons_of_mem _ (sendRemaining_failed results _ _ _ _ hrest)

/-- A send changes only the buffer to send from. -/
theorem tryToSend_same {c c' : ClientSocket} {results : List Int} {ok : Bool} {sent : List UInt8}
    (h : c.tryToSend results = some (c', ok, sent)) :
    c'.readerBuffer = c.readerBuffer ∧ c'.status = c.status ∧ (ok = false → -1 ∈ results) := by
  obtain ⟨⟨b, ok', sent'⟩, hrun, hresult⟩ := Option.map_eq_some_iff.mp h
  cases hresult
  exact ⟨rfl, rfl, fun hfail => sendRemaining_failed results _ _ _ _ (hfail ▸ hrun)⟩

/-- Bytes that are written to the buffer. -/
theorem Kept.write {s : ClientState} (h : Kept s out) {fresh : Nat → UInt8} {buffer : List UInt8}
    {readerBuffer : Core.ByteArray} (hwrite : s.socket.readerBuffer.writeData fresh (some buffer) =
      some readerBuffer)
    (hmain : s.main ≠ .cutting) (worker : WorkerPc) (r : Option ClientEvent) :
    Kept { s with socket := { s.socket with readerBuffer := readerBuffer }, worker := worker,
                  received := s.received ++ buffer, unseen := true } (out ++ [r]) := by
  obtain ⟨t, ht, hcursor⟩ := h.tape
  have ht' := writeData_inv ht hwrite
  have hnew : readerBuffer.content = s.socket.readerBuffer.content ++ buffer := by
    rw [ht'.content_eq, ht.content_eq]
    rfl
  have hlen := h.length_le
  have hsession := h.session_le
  refine ⟨⟨_, ht', fun _ => hcursor hmain⟩, ?_, ?_, ?_, fun i hi hlt => ?_, fun hseen => by cases hseen⟩
  · simp only [hnew, List.length_append]
    omega
  · simp only [hnew, List.length_append]
    rw [show s.received.length + buffer.length - (s.socket.readerBuffer.content.length + buffer.length) =
      s.received.length - s.socket.readerBuffer.content.length by omega,
      List.drop_append_of_le_length (by omega), ← h.content]
  · simp only [List.length_append]
    omega
  · simp only [hnew, List.length_append] at hlt
    exact (h.cut i hi (by omega)).mono buffer [r]

section Steps

variable {s s' : ClientState} {r : Option ClientEvent}

theorem poll_kept (h : Control s) (hkept : Kept s out)
    (hstep : workerStep s .poll = some (s', r)) : Control s' ∧ Kept s' (out ++ [r]) := by
  simp only [workerStep] at hstep
  split at hstep
  · split at hstep <;> cases hstep
    · rename_i hstatus
      exact ⟨⟨hstatus, h.resets, h.looked, h.ended, h.began⟩, hkept.same _ rfl rfl rfl rfl id⟩
    · rename_i hstatus
      exact ⟨⟨hstatus, h.resets, h.looked, h.ended, h.began⟩, hkept.same _ rfl rfl rfl rfl id⟩
    · exact ⟨h, hkept.same _ rfl rfl rfl rfl id⟩
  · cases hstep

theorem tryToConnect_kept {result : Option Bool} (h : Control s) (hkept : Kept s out)
    (hstep : workerStep s (.tryToConnect result) = some (s', r)) : Control s' ∧ Kept s' (out ++ [r]) := by
  have hworker := h.worker
  simp only [workerStep] at hstep
  split at hstep
  · rename_i hpc
    rw [hpc] at hworker
    have hresets : ¬ s.main.Resets := fun hmain => by
      have hstatus := h.resets hmain
      rw [show s.socket.status = .CONNECTING from hworker] at hstatus
      cases hstatus
    have hunseen := h.began hworker
    split at hstep <;> cases hstep
    · exact ⟨⟨trivial, h.resets, h.looked, h.ended, h.began⟩, hkept.same _ rfl rfl rfl rfl id⟩
    · exact ⟨⟨trivial, fun hmain => absurd hmain hresets, h.looked, fun _ => Or.inl hunseen, fun _ => hunseen⟩,
        hkept.same _ rfl rfl rfl rfl id⟩
  · cases hstep

/-- The end of the stream ends the session, and where it may do so nothing is left. -/
theorem recv_kept {result : RecvResult} (h : Control s) (hkept : Kept s out) (horderly : Orderly s (.recv result))
    (hstep : workerStep s (.recv result) = some (s', r)) : Control s' ∧ Kept s' (out ++ [r]) := by
  have hworker := h.worker
  simp only [workerStep] at hstep
  split at hstep
  · rename_i hpc
    rw [hpc] at hworker
    have hstatus : s.socket.status = .CONNECTED := hworker
    split at hstep
    · cases hstep
      exact ⟨⟨hworker, h.resets, h.looked, h.ended, h.began⟩, hkept.same _ rfl rfl rfl rfl id⟩
    · cases hstep
      exact ⟨⟨trivial, fun _ => rfl, h.looked, fun _ => horderly, fun hbegan => by cases hbegan⟩,
        hkept.same _ rfl rfl rfl rfl id⟩
    · split at hstep
      · cases hstep
      · cases hstep
        exact ⟨⟨hworker, h.resets, h.looked, h.ended, h.began⟩, hkept.same _ rfl rfl rfl rfl id⟩
  · cases hstep

/-- What was received comes to the end of `readerBuffer`. -/
theorem write_kept {fresh : Nat → UInt8} (h : Control s) (hkept : Kept s out)
    (hstep : workerStep s (.write fresh) = some (s', r)) : Control s' ∧ Kept s' (out ++ [r]) := by
  have hworker := h.worker
  simp only [workerStep] at hstep
  split at hstep
  · rename_i buffer hpc
    rw [hpc] at hworker
    have hstatus : s.socket.status = .CONNECTED := hworker
    split at hstep
    · cases hstep
    · rename_i hmain
      obtain ⟨readerBuffer, hwrite, hresult⟩ := Option.map_eq_some_iff.mp hstep
      cases hresult
      refine ⟨⟨?_, h.resets, fun hcutting => absurd hcutting hmain, fun hend => ?_, fun hbegan => ?_⟩,
        hkept.write hwrite hmain _ _⟩
      · simp only
        split <;> exact hstatus
      · rw [show s.socket.status = .DISCONNECTED from hend] at hstatus
        cases hstatus
      · rw [show s.socket.status = .CONNECTING from hbegan] at hstatus
        cases hstatus
  · cases hstep

theorem tryToSend_kept {results : List Int} (h : Control s) (hkept : Kept s out) (horderly : Orderly s (.tryToSend results))
    (hstep : workerStep s (.tryToSend results) = some (s', r)) : Control s' ∧ Kept s' (out ++ [r]) := by
  simp only [workerStep] at hstep
  split at hstep
  · rename_i hpc
    obtain ⟨⟨socket, ok, sent⟩, hsend, hresult⟩ := Option.map_eq_some_iff.mp hstep
    cases hresult
    obtain ⟨hbuffer, hsame, hfailed⟩ := tryToSend_same hsend
    cases ok with
    | true =>
      simp only [if_true]
      refine ⟨⟨trivial, fun hmain => hsame.trans (h.resets hmain), h.looked, fun hend => h.ended (hsame.symm.trans hend),
        fun hbegan => h.began (hsame.symm.trans hbegan)⟩, hkept.same _ hbuffer rfl rfl rfl id⟩
    | false =>
      simp only [Bool.false_eq_true, if_false]
      exact ⟨⟨trivial, fun _ => rfl, h.looked, fun _ => horderly (hfailed rfl), fun hbegan => by cases hbegan⟩,
        hkept.same _ hbuffer rfl rfl rfl id⟩
  · cases hstep

/-- **The worker.** -/
theorem workerStep_inv {a : ClientAction} (h : Control s) (hkept : Kept s out) (horderly : Orderly s a)
    (hstep : workerStep s a = some (s', r)) : Control s' ∧ Kept s' (out ++ [r]) := by
  cases a with
  | poll => exact poll_kept h hkept hstep
  | tryToConnect => exact tryToConnect_kept h hkept hstep
  | recv => exact recv_kept h hkept horderly hstep
  | write => exact write_kept h hkept hstep
  | tryToSend => exact tryToSend_kept h hkept horderly hstep
  | connect | close | send | update => cases hstep

end Steps

/-- Between two sessions the worker has nothing in its hands. -/
theorem Control.pending {s : ClientState} (h : Control s) (hstatus : s.socket.status = .DISCONNECTED) :
    s.worker = .loop ∧ s.pending = [] := by
  have hworker := h.worker
  rw [hstatus] at hworker
  cases hpc : s.worker with
  | loop => exact ⟨rfl, by rw [ClientState.pending, hpc]⟩
  | connecting | receiving | received | sending =>
    rw [hpc] at hworker
    cases hworker

/-- All bytes of a session that has ended were delivered, if `update` is not about to look. -/
theorem Kept.ended {s : ClientState} (h : Kept s out) (hcontrol : Control s)
    (hstatus : s.socket.status = .DISCONNECTED)
    (hmain : s.main ≠ .receiving) : ∀ i, s.session ≤ i → i < s.received.length → Present s.received out i :=
  h.seen ((hcontrol.ended hstatus).resolve_right hmain)

/-- `onReceived`, which leaves the read position somewhere. -/
theorem Kept.onReceived {s : ClientState} (h : Kept s out) (readPosition : Nat) :
    Kept { s with main := .cutting, unseen := false,
                  socket := { s.socket with readerBuffer := s.socket.readerBuffer.readPosition readPosition } }
      (out ++ [some (.onReceived (s.received.length - s.socket.readerBuffer.content.length)
        s.socket.readerBuffer.content)]) := by
  obtain ⟨t, ht, -⟩ := h.tape
  refine ⟨⟨_, readPosition_spec ht readPosition, fun hne => absurd rfl hne⟩, h.length_le, h.content, h.session_le,
    fun i hi hlt => (h.cut i hi hlt).concat _, fun _ i hi hlt => ?_⟩
  rcases Nat.lt_or_ge (i + s.socket.readerBuffer.content.length) s.received.length with hcut | hin
  · exact (h.cut i hi hcut).concat _
  · exact Present.of_content h.length_le h.content hin hlt

/-- Nothing to read: nothing is in the buffer. -/
theorem Kept.nothing {s : ClientState} (h : Kept s out) (hmain : s.main ≠ .cutting)
    (havailable : s.socket.readerBuffer.readAvailable = 0) (r : Option ClientEvent) :
    Kept { s with main := .cutting, unseen := false } (out ++ [r]) := by
  obtain ⟨t, ht, hcursor⟩ := h.tape
  have hempty : s.socket.readerBuffer.content.length = 0 := by
    rw [ht.readAvailable_eq, hcursor hmain] at havailable
    rw [ht.content_eq]
    exact havailable
  refine ⟨⟨t, ht, fun hne => absurd rfl hne⟩, h.length_le, h.content, h.session_le,
    fun i hi hlt => (h.cut i hi hlt).concat r, fun _ i hi hlt => (h.cut i hi ?_).concat r⟩
  rw [hempty]
  exact hlt

/-- `cutHead` removes bytes that were delivered. -/
theorem Kept.cutHead {s : ClientState} (h : Kept s out) (hunseen : s.unseen = false) {readerBuffer : Core.ByteArray}
    {none' : Option (List UInt8)}
    (hrun : s.socket.readerBuffer.cutHead s.socket.readerBuffer.readPos none = some (readerBuffer, none'))
    (r : Option ClientEvent) :
    Kept { s with main := .idle, socket := { s.socket with readerBuffer := readerBuffer } } (out ++ [r]) := by
  obtain ⟨t, ht, -⟩ := h.tape
  have hroom : HasRoom none (t.content.take s.socket.readerBuffer.readPos).length := fun buf hbuf => by cases hbuf
  obtain ⟨b', hb', ht'⟩ := cutHead_spec ht s.socket.readerBuffer.readPos none hroom
  rw [hrun] at hb'
  obtain ⟨rfl, -⟩ := Prod.mk.inj (Option.some.inj hb')
  have hcut : readerBuffer.content = s.socket.readerBuffer.content.drop s.socket.readerBuffer.readPos := by
    rw [ht'.content_eq, ht.content_eq]
    rfl
  have hlen := h.length_le
  have hcontent := h.content
  generalize s.socket.readerBuffer.content = content at hcut hlen hcontent
  have hcutLen : readerBuffer.content.length = content.length - s.socket.readerBuffer.readPos := by
    rw [hcut, List.length_drop]
  refine ⟨⟨_, ht', fun _ => ?_⟩, ?_, ?_, h.session_le, fun i hi hlt => (h.seen hunseen i hi ?_).concat r,
    fun hseen i hi hlt => (h.seen hunseen i hi hlt).concat r⟩
  · show t.cursor - s.socket.readerBuffer.readPos = 0
    rw [ht.cursor_eq, Nat.sub_self]
  · simp only
    omega
  · simp only
    rw [hcutLen, hcut]
    rcases Nat.lt_or_ge s.socket.readerBuffer.readPos content.length with hlt | hge
    · rw [hcontent, List.drop_drop, ← hcontent]
      congr 1
      omega
    · rw [List.drop_of_length_le hge, List.drop_of_length_le (by omega)]
  · simp only at hlt
    omega

/-- `reset` after a session that was delivered. -/
theorem Kept.truncate {s : ClientState} (h : Kept s out) (hunseen : s.unseen = false) (r : Option ClientEvent) :
    Kept { s with main := .resetWriter, socket := { s.socket with readerBuffer := s.socket.readerBuffer.clear } }
      (out ++ [r]) := by
  obtain ⟨t, ht, -⟩ := h.tape
  have hclear := clear_spec ht
  have hempty : s.socket.readerBuffer.clear.content = [] := hclear.content_eq
  refine ⟨⟨_, hclear, fun _ => rfl⟩, ?_, ?_, h.session_le, fun i hi hlt => (h.seen hunseen i hi ?_).concat r,
    fun hseen i hi hlt => (h.seen hunseen i hi hlt).concat r⟩
  · simp only [hempty, List.length_nil]
    exact Nat.zero_le _
  · simp only [hempty, List.length_nil, Nat.sub_zero, List.drop_length]
  · simp only [hempty, List.length_nil] at hlt
    exact hlt

/-- A session begins. -/
theorem Kept.connect {s : ClientState} (h : Kept s out) (socket : ClientSocket)
    (hbuffer : socket.readerBuffer = s.socket.readerBuffer) (r : Option ClientEvent) :
    Kept { s with socket := socket, session := s.received.length, unseen := false } (out ++ [r]) := by
  obtain ⟨t, ht, hcursor⟩ := h.tape
  refine ⟨⟨t, hbuffer ▸ ht, hcursor⟩, ?_, ?_, Nat.le_refl _, fun i hi hlt => ?_, fun _ i hi hlt => ?_⟩
  · simp only [hbuffer]
    exact h.length_le
  · simp only [hbuffer]
    exact h.content
  · simp only at hi hlt
    omega
  · simp only at hi hlt
    omega

/-- `connect` begins a session only after one has ended. -/
theorem connect_same (c : ClientSocket) : c.connect.readerBuffer = c.readerBuffer ∧
    (c.status = .DISCONNECTED → c.connect.status = .CONNECTING) ∧
    (c.status ≠ .DISCONNECTED → c.connect.status = c.status) := by
  unfold ClientSocket.connect
  simp only
  split <;> split <;> simp_all

/-- A step of `update` that does nothing to the status and the bytes. -/
theorem Control.moveTo {s : ClientState} (h : Control s) (hkept : Kept s out) (main : MainPc)
    (socket : ClientSocket)
    (r : Option ClientEvent) (hpc : s.main ≠ .receiving ∧ s.main ≠ .cutting) (hmain : main ≠ .cutting)
    (hresets : main.Resets → s.socket.status = .DISCONNECTED) (hstatus : socket.status = s.socket.status)
    (hbuffer : socket.readerBuffer = s.socket.readerBuffer) :
    Control { s with main := main, socket := socket } ∧
      Kept { s with main := main, socket := socket } (out ++ [r]) := by
  refine ⟨⟨?_, fun hreset => hstatus.trans (hresets hreset), fun hcutting => absurd hcutting hmain, fun hend => ?_,
    fun hbegan => h.began (hstatus.symm.trans hbegan)⟩, hkept.same r hbuffer rfl rfl rfl fun _ => hpc.2⟩
  · simp only [hstatus]
    exact h.worker
  · exact Or.inl ((h.ended (hstatus.symm.trans hend)).resolve_right hpc.1)

section Steps

variable {s s' : ClientState} {r : Option ClientEvent}

/-- A session begins where the last one ended, with nothing in the hands of the worker. -/
theorem connect_kept (h : Control s) (hkept : Kept s out)
    (hstep : mainStep s .connect = some (s', r)) : Control s' ∧ Kept s' (out ++ [r]) := by
  obtain ⟨hbuffer, hbegins, hsame⟩ := connect_same s.socket
  simp only [mainStep] at hstep
  split at hstep
  · rename_i hcode
    split at hstep <;> cases hstep
    · rename_i hstatus
      obtain ⟨hloop, hpending⟩ := h.pending hstatus
      have hstatus' := hbegins hstatus
      rw [hpending, List.length_nil, Nat.add_zero]
      refine ⟨⟨?_, fun hmain => ?_, fun _ => rfl, fun _ => Or.inl rfl, fun _ => rfl⟩,
        hkept.connect _ hbuffer none⟩
      · simp only [hloop]
        trivial
      · simp only at hmain
        cases hpc : s.main <;> rw [hpc] at hmain hcode <;> first | exact hmain.elim | cases hcode
    · rename_i hstatus
      have hstatus' := hsame hstatus
      refine ⟨⟨?_, ?_, h.looked, ?_, ?_⟩, hkept.same none hbuffer rfl rfl rfl id⟩ <;> simp only [hstatus']
      · exact h.worker
      · exact h.resets
      · exact h.ended
      · exact h.began
  · cases hstep

theorem update_kept {readPosition : Nat} (h : Control s) (hkept : Kept s out)
    (hstep : mainStep s (.update readPosition) = some (s', r)) : Control s' ∧ Kept s' (out ++ [r]) := by
  simp only [mainStep] at hstep
  cases hpc : s.main with
  | idle =>
    rw [hpc] at hstep
    simp only at hstep
    split at hstep <;> cases hstep <;>
      exact h.moveTo hkept _ _ _ (by rw [hpc]; decide) (by decide) (fun hreset => hreset.elim) rfl rfl
  | changed =>
    rw [hpc] at hstep
    cases hstep
    exact h.moveTo hkept _ _ _ (by rw [hpc]; decide) (by decide) (fun hreset => hreset.elim) rfl rfl
  | switching =>
    rw [hpc] at hstep
    simp only at hstep
    split at hstep <;> cases hstep
    · rename_i hstatus
      exact h.moveTo hkept _ _ _ (by rw [hpc]; decide) (by decide) (fun _ => hstatus) rfl rfl
    · exact h.moveTo hkept _ _ _ (by rw [hpc]; decide) (by decide) (fun hreset => hreset.elim) rfl rfl
    · exact h.moveTo hkept _ _ _ (by rw [hpc]; decide) (by decide) (fun hreset => hreset.elim) rfl rfl
  | resetReader =>
    rw [hpc] at hstep
    cases hstep
    have hstatus := h.resets (by rw [hpc]; trivial)
    have hunseen := (h.ended hstatus).resolve_right (by rw [hpc]; decide)
    exact ⟨⟨h.worker, fun _ => hstatus, (fun hcutting => by cases hcutting), fun _ => Or.inl hunseen, h.began⟩,
      hkept.truncate hunseen none⟩
  | resetWriter =>
    rw [hpc] at hstep
    cases hstep
    exact h.moveTo hkept _ _ _ (by rw [hpc]; decide) (by decide)
      (fun _ => h.resets (by rw [hpc]; trivial)) rfl rfl
  | closed | callback =>
    rw [hpc] at hstep
    cases hstep
    exact h.moveTo hkept _ _ _ (by rw [hpc]; decide) (by decide) (fun hreset => hreset.elim) rfl rfl
  | testing =>
    rw [hpc] at hstep
    simp only at hstep
    split at hstep <;> cases hstep <;>
      exact h.moveTo hkept _ _ _ (by rw [hpc]; decide) (by decide) (fun hreset => hreset.elim) rfl rfl
  | receiving =>
    rw [hpc] at hstep
    simp only at hstep
    have hcontrol : ∀ socket : ClientSocket, socket.status = s.socket.status →
        Control { s with main := .cutting, unseen := false, socket := socket } := fun socket hstatus => by
      refine ⟨?_, fun hreset => hreset.elim, fun _ => rfl, fun _ => Or.inl rfl, fun _ => rfl⟩
      simp only [hstatus]
      exact h.worker
    split at hstep <;> cases hstep
    · exact ⟨hcontrol _ rfl, hkept.onReceived readPosition⟩
    · rename_i havailable
      exact ⟨hcontrol _ rfl, hkept.nothing (by rw [hpc]; decide) (not_not.mp havailable) none⟩
  | cutting =>
    rw [hpc] at hstep
    obtain ⟨⟨readerBuffer, rest⟩, hcut, hresult⟩ := Option.map_eq_some_iff.mp hstep
    cases hresult
    have hunseen := h.looked hpc
    exact ⟨⟨h.worker, fun hreset => hreset.elim, (fun hcutting => by cases hcutting), fun _ => Or.inl hunseen, h.began⟩,
      hkept.cutHead hunseen hcut none⟩

/-- **The main thread.** -/
theorem mainStep_inv {a : ClientAction} (h : Control s) (hkept : Kept s out) (hopen : Unclosed a)
    (hstep : mainStep s a = some (s', r)) : Control s' ∧ Kept s' (out ++ [r]) := by
  cases a with
  | connect => exact connect_kept h hkept hstep
  | close => exact hopen.elim
  | send fresh data =>
    simp only [mainStep] at hstep
    split at hstep
    · obtain ⟨socket, hsend, hresult⟩ := Option.map_eq_some_iff.mp hstep
      cases hresult
      obtain ⟨writerBuffer, -, rfl⟩ := Option.map_eq_some_iff.mp hsend
      exact ⟨⟨h.worker, h.resets, h.looked, h.ended, h.began⟩, hkept.same _ rfl rfl rfl rfl id⟩
    · cases hstep
  | update => exact update_kept h hkept hstep
  | poll | tryToConnect | recv | write | tryToSend => cases hstep

end Steps

/-! ## Runs -/

/-- **One step of either thread.** -/
theorem clientStep_inv {s s' : ClientState} {a : ClientAction} {r : Option ClientEvent} (h : Control s)
    (hkept : Kept s out) (horderly : Orderly s a) (hopen : Unclosed a) (hstep : clientStep s a = some (s', r)) :
    Control s' ∧ Kept s' (out ++ [r]) := by
  unfold clientStep at hstep
  cases a with
  | connect | close | send | update => exact mainStep_inv h hkept hopen hstep
  | poll | tryToConnect | recv | write | tryToSend => exact workerStep_inv h hkept horderly hstep

/-- A step only adds to what was received, and the close is reported by `update`, after `reset`. -/
theorem clientStep_history {s s' : ClientState} {a : ClientAction} {r : Option ClientEvent}
    (hstep : clientStep s a = some (s', r)) :
    (∃ more, s'.received = s.received ++ more) ∧ ∀ first last, r = some (.onClosed first last) →
      s.main = .closed ∧ first = s.session ∧ last = s.received.length + s.pending.length := by
  have hsame : s'.received = s.received → ∃ more, s'.received = s.received ++ more := fun heq =>
    ⟨[], by rw [heq, List.append_nil]⟩
  unfold clientStep at hstep
  cases a with
  | write fresh =>
    simp only [workerStep] at hstep
    split at hstep
    · rename_i buffer _
      split at hstep
      · cases hstep
      · obtain ⟨readerBuffer, -, hresult⟩ := Option.map_eq_some_iff.mp hstep
        cases hresult
        exact ⟨⟨buffer, rfl⟩, nofun⟩
    · cases hstep
  | tryToSend results =>
    simp only [workerStep] at hstep
    split at hstep
    · obtain ⟨⟨socket, ok, sent⟩, -, hresult⟩ := Option.map_eq_some_iff.mp hstep
      cases hresult
      exact ⟨hsame rfl, nofun⟩
    · cases hstep
  | send fresh data =>
    simp only [mainStep] at hstep
    split at hstep
    · obtain ⟨socket, -, hresult⟩ := Option.map_eq_some_iff.mp hstep
      cases hresult
      exact ⟨hsame rfl, nofun⟩
    · cases hstep
  | poll | tryToConnect | recv | connect | close =>
    simp only [workerStep, mainStep] at hstep
    repeat' split at hstep
    all_goals cases hstep
    all_goals exact ⟨hsame rfl, nofun⟩
  | update readPosition =>
    simp only [mainStep] at hstep
    split at hstep
    case h_6 hpc =>
      cases hstep
      refine ⟨hsame rfl, fun first last heq => ?_⟩
      cases heq
      exact ⟨hpc, rfl, rfl⟩
    case h_10 =>
      obtain ⟨⟨readerBuffer, rest⟩, -, hresult⟩ := Option.map_eq_some_iff.mp hstep
      cases hresult
      exact ⟨hsame rfl, nofun⟩
    all_goals repeat' split at hstep
    all_goals cases hstep
    all_goals exact ⟨hsame rfl, nofun⟩

theorem Control.new : Control ClientState.new where
  worker := trivial
  resets h := h.elim
  looked h := by cases h
  ended _ := Or.inl rfl
  began _ := rfl

theorem Kept.new : Kept ClientState.new [] where
  tape := ⟨_, ofLength_holds (by decide : 0 < 2 ^ 62), fun _ => rfl⟩
  length_le := by decide
  content := by decide
  session_le := Nat.le_refl 0
  cut i _ hlt := absurd hlt (Nat.not_lt_zero _)
  seen _ i _ hlt := absurd hlt (Nat.not_lt_zero i)

/-- **Everything is delivered before the close is reported**, in every run in which the program does
not close the session itself, and the worker ends it only when `update` has looked at its last
bytes. -/
theorem delivers_before_close (actions : List ClientAction) (s : ClientState) (out : List (Option ClientEvent))
    (hrun : runOps clientStep ClientState.new actions = some (s, out)) (hopen : ∀ a ∈ actions, Unclosed a)
    (horderly : Along clientStep Orderly ClientState.new actions) : Delivered s.received out := by
  have hstep : ∀ (s : ClientState) (_ : List ClientAction) (out : List (Option ClientEvent)) (a : ClientAction)
      (s' : ClientState) (r : Option ClientEvent), Control s ∧ Kept s out ∧ Delivered s.received out →
      Orderly s a ∧ Unclosed a → clientStep s a = some (s', r) →
      Control s' ∧ Kept s' (out ++ [r]) ∧ Delivered s'.received (out ++ [r]) := by
    rintro s - out a s' r ⟨hcontrol, hkept, hdelivered⟩ hok hstep
    obtain ⟨hcontrol', hkept'⟩ := clientStep_inv hcontrol hkept hok.1 hok.2 hstep
    obtain ⟨⟨more, hmore⟩, hreported⟩ := clientStep_history hstep
    refine ⟨hcontrol', hkept', hmore ▸ hdelivered.concat fun first last hclosed i hi hlt => ?_⟩
    obtain ⟨hpc, rfl, rfl⟩ := hreported first last hclosed
    have hstatus := hcontrol.resets (by rw [hpc]; trivial)
    rw [(hcontrol.pending hstatus).2, List.length_nil, Nat.add_zero] at hlt
    exact hkept.ended hcontrol hstatus (by rw [hpc]; decide) i hi hlt
  have hnew : Delivered ClientState.new.received [] := before_nil _
  exact (runOps_trace _ hstep actions ClientState.new s [] [] out ⟨Control.new, Kept.new, hnew⟩
    (horderly.and_of_forall hopen) hrun).2.2

/-- Up to the end of the first `update` of a session in which one byte comes after it. -/
def oneByte : List ClientAction :=
  [.connect, .poll, .tryToConnect (some true), .update 0, .update 0, .update 0, .update 0, .update 0, .update 0,
    .update 0, .poll, .recv (.data [65]), .write fun _ => 0, .tryToSend [], .poll]

/-- `update` looks at the byte, and reports the close in its next call. -/
theorem delivers_before_close_in_time : ∃ s out,
    runOps clientStep ClientState.new (oneByte ++ [.update 0, .update 0, .update 1, .update 0, .recv .closed, .update 0,
      .update 0, .update 0, .update 0, .update 0, .update 0]) = some (s, out) ∧
      out.reduceOption = [.connect 1, .onConnected, .onReceived 0 [65], .onClosed 0 1] ∧
        Delivered s.received out := by
  have hrun : (runOps clientStep ClientState.new (oneByte ++ [.update 0, .update 0, .update 1, .update 0, .recv .closed,
      .update 0, .update 0, .update 0, .update 0, .update 0, .update 0])).map (fun r => r.2.reduceOption) =
      some [.connect 1, .onConnected, .onReceived 0 [65], .onClosed 0 1] := by decide +kernel
  obtain ⟨⟨s, out⟩, hrun, hout⟩ := Option.map_eq_some_iff.mp hrun
  exact ⟨s, out, hrun, hout, delivers_before_close _ s out hrun (by decide) (by decide +kernel)⟩

/-- **The byte and the end of the session come between two calls of `update`**: only the close is
reported. -/
theorem closes_without_delivery : ¬ ∀ (actions : List ClientAction) (s : ClientState) (out : List (Option ClientEvent)),
    runOps clientStep ClientState.new actions = some (s, out) → (∀ a ∈ actions, Unclosed a) →
    Delivered s.received out := by
  intro hclaim
  have hrun : (runOps clientStep ClientState.new (oneByte ++ [.recv .closed, .update 0, .update 0, .update 0, .update 0,
      .update 0, .update 0])).map (fun r => r.2.reduceOption) = some [.connect 1, .onConnected, .onClosed 0 1] := by
    decide +kernel
  obtain ⟨⟨s, out⟩, hrun, hout⟩ := Option.map_eq_some_iff.mp hrun
  have hmem : ∀ e : ClientEvent, some e ∈ out ↔ e ∈ [.connect 1, .onConnected, .onClosed 0 1] := fun e => by
    rw [← List.reduceOption_mem_iff, show out.reduceOption = _ from hout]
  obtain ⟨k, hk⟩ := List.getElem?_of_mem ((hmem (.onClosed 0 1)).mpr (by decide))
  obtain ⟨first, content, hreceived, -⟩ :=
    hclaim _ s out hrun (by decide) k _ hk 0 1 rfl 0 (Nat.le_refl 0) Nat.zero_lt_one
  have hnone := (hmem _).mp (List.mem_of_mem_take hreceived)
  simp at hnone

end Libws.Network
