import Libws.Network.ClientDelivery
import Libws.Network.Connection

/-!
# The streams of a connection

* `Moves` — how the two threads of a `ClientSocket` may move on, whatever the program does;
* `inbox`, `outbox` — what a `ClientSocket` has received and not given to the program yet, and what it has to send;
* `Linked` — what every step keeps of a connection;
* `stream_to_client`, `stream_to_server` — **in every run** the bytes come out at one end as they went in at the
  other;
* `Patient`, `read_as_sent` — a program that waits for the end of a session reads nothing from an earlier one.
-/

set_option autoImplicit false

namespace Libws.Network.Connections

open Libws.Machine Libws.Core.ByteArray Libws.Fifo

/-! ## The two threads of the socket -/

/-- The worker is not in `tryToRecv`, nor before `tryToSend`. -/
def Idle : WorkerPc → Prop
  | .loop | .connecting => True
  | .receiving | .received _ | .sending => False

structure Ordered (s : ClientState) : Prop where
  connecting : s.worker = .connecting → s.socket.status = .CONNECTING
  resets : s.main.Resets → s.socket.status = .DISCONNECTED

/-- What a step of the socket does to its threads, its status and its number. -/
structure Moves (s : ClientState) (a : ClientAction) (s' : ClientState) : Prop where
  ordered : Ordered s'
  connected : s'.socket.status = .CONNECTED → s.socket.status = .CONNECTED ∨ a = .tryToConnect (some true)
  receiving : s'.main = .receiving → s.main = .receiving ∨ s.socket.status = .CONNECTED
  idle : Idle s.worker → s.socket.status ≠ .CONNECTED → Idle s'.worker
  sockfd_le : s.socket.sockfd ≤ s'.socket.sockfd
  reset : s'.main.Resets → s.main.Resets ∨ s.socket.sockfd < s'.socket.sockfd

variable {s s' : ClientState} {a : ClientAction} {e : Option ClientEvent}

/-- A step that changes nothing of that but where the worker is. -/
theorem Moves.worker (h : Ordered s) (hsocket : s'.socket.status = s.socket.status)
    (hsockfd : s'.socket.sockfd = s.socket.sockfd)
    (hmain : s'.main = s.main) (hconnecting : s'.worker = .connecting → s.socket.status = .CONNECTING)
    (hidle : Idle s.worker → s.socket.status ≠ .CONNECTED → Idle s'.worker) : Moves s a s' := by
  refine ⟨⟨?_, ?_⟩, ?_, ?_, hidle, ?_, ?_⟩
  · rw [hsocket]
    exact hconnecting
  · rw [hsocket, hmain]
    exact h.resets
  · rw [hsocket]
    exact Or.inl
  · rw [hmain]
    exact Or.inl
  · exact Nat.le_of_eq hsockfd.symm
  · rw [hmain]
    exact Or.inl

/-- The worker ends a session, or an attempt. -/
theorem Moves.disconnected (hstatus : s'.socket.status = .DISCONNECTED)
    (hsockfd : s'.socket.sockfd = s.socket.sockfd)
    (hmain : s'.main = s.main) (hworker : s'.worker = .loop) : Moves s a s' := by
  refine ⟨⟨?_, ?_⟩, ?_, ?_, ?_, ?_, ?_⟩
  · rw [hworker]
    intro hloop
    cases hloop
  · intro _
    exact hstatus
  · rw [hstatus]
    intro hconnected
    cases hconnected
  · rw [hmain]
    exact Or.inl
  · rw [hworker]
    intro _ _
    trivial
  · exact Nat.le_of_eq hsockfd.symm
  · rw [hmain]
    exact Or.inl

theorem poll_moves (h : Ordered s) (hstep : workerStep s .poll = some (s', e)) :
    Moves s .poll s' := by
  simp only [workerStep] at hstep
  split at hstep
  next hloop =>
    split at hstep
    next hstatus =>
      cases hstep
      refine .worker h rfl rfl rfl (fun _ => hstatus) ?_
      intro _ _
      trivial
    next hstatus =>
      cases hstep
      refine .worker h rfl rfl rfl ?_ ?_
      · intro hpc
        cases hpc
      · intro _ hnot
        exact absurd hstatus hnot
    next =>
      cases hstep
      exact .worker h rfl rfl rfl h.connecting fun hidle _ => hidle
  next => cases hstep

/-- A connection is opened from `CONNECTING` only, and where `reset` does not stand. -/
theorem tryToConnect_moves {result : Option Bool} (h : Ordered s)
    (hstep : workerStep s (.tryToConnect result) = some (s', e)) : Moves s (.tryToConnect result) s' := by
  simp only [workerStep] at hstep
  split at hstep
  next hconnecting =>
    split at hstep
    next =>
      cases hstep
      refine .worker h rfl rfl rfl ?_ ?_
      · intro hpc
        cases hpc
      · intro _ _
        trivial
    next ok =>
      cases hstep
      have hstatus := h.connecting hconnecting
      have hresets : ¬ s.main.Resets := by
        intro hmain
        cases hstatus.symm.trans (h.resets hmain)
      refine ⟨⟨?_, ?_⟩, ?_, ?_, ?_, Nat.le_refl _, Or.inl⟩
      · intro hpc
        cases hpc
      · intro hmain
        exact absurd hmain hresets
      · intro hstatus
        cases ok with
        | true => exact .inr rfl
        | false => cases hstatus
      · intro hmain
        exact .inl hmain
      · intro _ _
        trivial
  next => cases hstep

/-- `::recv` reports the end, or nothing, or bytes: the first ends the session. -/
theorem recv_moves {result : RecvResult} (h : Ordered s) (hstep : workerStep s (.recv result) = some (s', e)) :
    Moves s (.recv result) s' := by
  simp only [workerStep] at hstep
  split at hstep
  next hreceiving =>
    have hbusy : ∀ {p : Prop}, Idle s.worker → p := by
      intro p hidle
      rw [hreceiving] at hidle
      exact hidle.elim
    split at hstep
    next =>
      cases hstep
      refine .worker h rfl rfl rfl ?_ ?_
      · intro hpc
        cases hpc
      · intro hidle _
        exact hbusy hidle
    next =>
      cases hstep
      exact .disconnected rfl rfl rfl rfl
    next buffer =>
      split at hstep
      next => cases hstep
      next =>
        cases hstep
        refine .worker h rfl rfl rfl ?_ ?_
        · intro hpc
          cases hpc
        · intro hidle _
          exact hbusy hidle
  next => cases hstep

theorem write_moves {fresh : Nat → UInt8} (h : Ordered s) (hstep : workerStep s (.write fresh) = some (s', e)) :
    Moves s (.write fresh) s' := by
  simp only [workerStep] at hstep
  split at hstep
  next buffer hreceived =>
    split at hstep
    next => cases hstep
    next =>
      obtain ⟨readerBuffer, -, hresult⟩ := Option.map_eq_some_iff.mp hstep
      cases hresult
      refine .worker h rfl rfl rfl ?_ ?_
      · intro hpc
        dsimp only at hpc
        split at hpc <;> cases hpc
      · intro hidle _
        rw [hreceived] at hidle
        exact hidle.elim
  next => cases hstep

theorem tryToSend_moves {results : List Int} (h : Ordered s)
    (hstep : workerStep s (.tryToSend results) = some (s', e)) : Moves s (.tryToSend results) s' := by
  simp only [workerStep] at hstep
  split at hstep
  next hsending =>
    obtain ⟨⟨socket, ok, sent⟩, hsend, hresult⟩ := Option.map_eq_some_iff.mp hstep
    cases hresult
    obtain ⟨⟨writerBuffer, ok', sent'⟩, -, hsame⟩ := Option.map_eq_some_iff.mp hsend
    cases hsame
    cases ok with
    | true =>
      refine .worker h rfl rfl rfl ?_ ?_
      · intro hpc
        cases hpc
      · intro _ _
        trivial
    | false => exact .disconnected rfl rfl rfl rfl
  next => cases hstep

theorem workerStep_moves (h : Ordered s) (hstep : workerStep s a = some (s', e)) : Moves s a s' := by
  cases a with
  | poll => exact poll_moves h hstep
  | tryToConnect => exact tryToConnect_moves h hstep
  | recv => exact recv_moves h hstep
  | write => exact write_moves h hstep
  | tryToSend => exact tryToSend_moves h hstep
  | connect | close | send | update => cases hstep

theorem not_resets_of_userCode (h : s.main.userCode = true) : ¬ s.main.Resets := by
  cases hmain : s.main <;> rw [hmain] at h <;> first | exact id | cases h

/-- A call of the program. -/
theorem Moves.call {socket : ClientSocket} {session : Nat} {unseen : Bool} (h : Ordered s)
    (hcode : s.main.userCode = true) (hconnected : socket.status = .CONNECTED → s.socket.status = .CONNECTED)
    (hconnecting : s.socket.status = .CONNECTING → socket.status = .CONNECTING)
    (hsockfd : s.socket.sockfd ≤ socket.sockfd) :
    Moves s a { s with socket := socket, session := session, unseen := unseen } := by
  have hresets := not_resets_of_userCode hcode
  refine ⟨⟨?_, ?_⟩, ?_, ?_, ?_, hsockfd, Or.inl⟩
  · intro hworker
    exact hconnecting (h.connecting hworker)
  · intro hmain
    exact absurd hmain hresets
  · intro hstatus
    exact .inl (hconnected hstatus)
  · intro hmain
    exact .inl hmain
  · intro hidle _
    exact hidle

theorem connect_cases (c : ClientSocket) : c.connect.writerBuffer = c.writerBuffer ∧ c.sockfd ≤ c.connect.sockfd ∧
    (c.connect.status = .CONNECTED → c.status = .CONNECTED) ∧ (c.status = .CONNECTING →
      c.connect.status = .CONNECTING) := by
  unfold ClientSocket.connect
  cases hstatus : c.status <;> by_cases hzero : c.sockfd = 0 <;> simp [hstatus, hzero]

theorem close_cases (c : ClientSocket) : c.close.writerBuffer = c.writerBuffer ∧ c.sockfd ≤ c.close.sockfd ∧
    (c.close.status = .CONNECTED → c.status = .CONNECTED) ∧ (c.status = .CONNECTING →
      c.close.status = .CONNECTING) := by
  unfold ClientSocket.close ClientSocket.isConnected
  cases hstatus : c.status <;> simp [hstatus]

/-- The next access of `update`, unless it is that of `reset`. -/
theorem Moves.next {socket : ClientSocket} {main : MainPc} {unseen : Bool} (h : Ordered s)
    (hstatus : socket.status = s.socket.status) (hsockfd : socket.sockfd = s.socket.sockfd)
    (hreceiving : main = .receiving → s.socket.status = .CONNECTED) (hresets : main.Resets → s.main.Resets) :
    Moves s a { s with socket := socket, main := main, unseen := unseen } := by
  refine ⟨⟨?_, ?_⟩, ?_, ?_, ?_, Nat.le_of_eq hsockfd.symm, ?_⟩
  · intro hworker
    exact hstatus.trans (h.connecting hworker)
  · intro hmain
    exact hstatus.trans (h.resets (hresets hmain))
  · intro hconnected
    exact .inl (hstatus.symm.trans hconnected)
  · intro hmain
    exact .inr (hreceiving hmain)
  · intro hidle _
    exact hidle
  · intro hmain
    exact .inl (hresets hmain)

theorem mainStep_moves (h : Ordered s) (hstep : mainStep s a = some (s', e)) : Moves s a s' := by
  unfold mainStep at hstep
  cases a with
  | connect =>
    obtain ⟨-, hsockfd, hconnected, hconnecting⟩ := connect_cases s.socket
    simp only at hstep
    split at hstep
    next hcode =>
      split at hstep
      next => cases hstep; exact .call h hcode hconnected hconnecting hsockfd
      next => cases hstep; exact .call h hcode hconnected hconnecting hsockfd
    next => cases hstep
  | close =>
    simp only at hstep
    split at hstep
    next hcode =>
      cases hstep
      obtain ⟨-, hsockfd, hconnected, hconnecting⟩ := close_cases s.socket
      exact .call h hcode hconnected hconnecting hsockfd
    next => cases hstep
  | send fresh data =>
    simp only at hstep
    split at hstep
    next hcode =>
      obtain ⟨socket, hsend, hresult⟩ := Option.map_eq_some_iff.mp hstep
      cases hresult
      obtain ⟨writerBuffer, -, rfl⟩ := Option.map_eq_some_iff.mp hsend
      exact .call h hcode id id (Nat.le_refl _)
    next => cases hstep
  | update readPosition =>
    simp only at hstep
    split at hstep
    next hpc =>
      split at hstep
      next => cases hstep; exact .next h rfl rfl (by simp) (by simp [MainPc.Resets])
      next => cases hstep; exact .next h rfl rfl (by simp) (by simp [MainPc.Resets])
    next hpc => cases hstep; exact .next h rfl rfl (by simp) (by simp [MainPc.Resets])
    next hpc =>
      split at hstep
      next hstatus =>
        -- `reset` opens a new socket
        cases hstep
        refine ⟨⟨h.connecting, fun _ => hstatus⟩, Or.inl, ?_, fun hidle _ => hidle, Nat.le_succ _, ?_⟩
        · intro hmain
          cases hmain
        · intro _
          exact .inr (Nat.lt_succ_self _)
      next => cases hstep; exact .next h rfl rfl (by simp) (by simp [MainPc.Resets])
      next => cases hstep; exact .next h rfl rfl (by simp) (by simp [MainPc.Resets])
    next hpc => cases hstep; exact .next h rfl rfl (by simp) (by simp [MainPc.Resets, hpc])
    next hpc => cases hstep; exact .next h rfl rfl (by simp) (by simp [MainPc.Resets, hpc])
    next hpc => cases hstep; exact .next h rfl rfl (by simp) (by simp [MainPc.Resets])
    next hpc => cases hstep; exact .next h rfl rfl (by simp) (by simp [MainPc.Resets])
    next hpc =>
      split at hstep
      next hstatus => cases hstep; exact .next h rfl rfl (fun _ => hstatus) (by simp [MainPc.Resets])
      next => cases hstep; exact .next h rfl rfl (by simp) (by simp [MainPc.Resets])
    next hpc =>
      split at hstep
      next => cases hstep; exact .next h rfl rfl (by simp) (by simp [MainPc.Resets])
      next => cases hstep; exact .next h rfl rfl (by simp) (by simp [MainPc.Resets])
    next hpc =>
      obtain ⟨⟨readerBuffer, cut⟩, -, hresult⟩ := Option.map_eq_some_iff.mp hstep
      cases hresult
      exact .next h rfl rfl (by simp) (by simp [MainPc.Resets])
  | poll | tryToConnect | recv | write | tryToSend => cases hstep

theorem clientStep_moves (h : Ordered s) (hstep : clientStep s a = some (s', e)) : Moves s a s' := by
  unfold clientStep at hstep
  cases a with
  | connect | close | send | update => exact mainStep_moves h hstep
  | poll | tryToConnect | recv | write | tryToSend => exact workerStep_moves h hstep

/-! ## What the socket has in its hands -/

/-- What it has received, and not given to the program. -/
def inbox (s : ClientState) : List UInt8 := unread s.socket.readerBuffer ++ s.pending

/-- What it has to send. -/
def outbox (s : ClientState) : List UInt8 := unread s.socket.writerBuffer

def arrives : ClientAction → List UInt8
  | .recv (.data buffer) => buffer
  | _ => []

def sends : ClientAction → List UInt8
  | .send _ data => data.getD []
  | _ => []

/-- What `onReceived` reads in the step. -/
def reads (s : ClientState) : ClientAction → List UInt8
  | .update readPosition =>
    if s.main = .receiving ∧ s.socket.readerBuffer.readAvailable ≠ 0 then
      s.socket.readerBuffer.content.take (s.socket.readerBuffer.readPosition readPosition).readPos
    else []
  | _ => []

def ClearsReader (s : ClientState) (a : ClientAction) : Prop :=
  s.main = .resetReader ∧ ∃ readPosition, a = .update readPosition

def ClearsWriter (s : ClientState) (a : ClientAction) : Prop :=
  s.main = .resetWriter ∧ ∃ readPosition, a = .update readPosition

/-- Outside `onReceived`, nothing is read in `readerBuffer`. -/
structure Buffers (s : ClientState) : Prop where
  reader : ∃ t, Holds s.socket.readerBuffer t ∧ (s.main ≠ .cutting → t.cursor = 0)
  writer : ∃ t, Holds s.socket.writerBuffer t

theorem unread_eq {b : Core.ByteArray} {t : Tape UInt8} (h : Holds b t) : unread b = t.unread := by
  rw [unread, h.content_eq, h.cursor_eq, Tape.unread]

theorem unread_write {b b' : Core.ByteArray} {t : Tape UInt8} (h : Holds b t) {fresh : Nat → UInt8}
    {data : Option (List UInt8)} (hwrite : b.writeData fresh data = some b') :
    unread b' = unread b ++ data.getD [] := by
  rw [unread_eq (writeData_inv h hwrite), unread_eq h, Tape.unread, Tape.unread, Tape.append]
  exact List.drop_append_of_le_length t.cursor_le

/-- The buffers, and what goes through them in a step. -/
structure Passed (s : ClientState) (a : ClientAction) (s' : ClientState) : Prop where
  buffers : Buffers s'
  reader : ¬ ClearsReader s a → Passes (inbox s) (arrives a) (reads s a) (inbox s')
  writer : ¬ ClearsWriter s a → outbox s' = outbox s ++ sends a

/-- A step that leaves the buffers as they are. -/
theorem Passed.same (h : Buffers s) (hreader : s'.socket.readerBuffer = s.socket.readerBuffer)
    (hwriter : s'.socket.writerBuffer = s.socket.writerBuffer) (hmain : s'.main ≠ .cutting → s.main ≠ .cutting)
    (hpending : s'.pending = s.pending ++ arrives a) (hreads : reads s a = []) (hsends : sends a = []) :
    Passed s a s' := by
  refine ⟨⟨?_, ?_⟩, ?_, ?_⟩
  · obtain ⟨t, ht, hcursor⟩ := h.reader
    refine ⟨t, ?_, ?_⟩
    · rw [hreader]
      exact ht
    · intro hne
      exact hcursor (hmain hne)
  · rw [hwriter]
    exact h.writer
  · intro _
    rw [inbox, inbox, hreader, hpending, hreads, ← List.append_assoc]
    exact .putAll _ _
  · intro _
    rw [outbox, outbox, hwriter, hsends, List.append_nil]

theorem workerStep_passed (h : Buffers s) (hsend : ∀ results, a ≠ .tryToSend results)
    (hstep : workerStep s a = some (s', e)) : Passed s a s' := by
  unfold workerStep at hstep
  cases a with
  | poll =>
    simp only at hstep
    split at hstep
    next hloop =>
      split at hstep <;> cases hstep <;> exact .same h rfl rfl id (by simp [arrives,
        ClientState.pending, hloop]) rfl rfl
    next => cases hstep
  | tryToConnect result =>
    simp only at hstep
    split at hstep
    next hconnecting =>
      split at hstep <;> cases hstep <;> exact .same h rfl rfl id (by simp [arrives, ClientState.pending,
        hconnecting]) rfl rfl
    next => cases hstep
  | recv result =>
    simp only at hstep
    split at hstep
    next hreceiving =>
      split at hstep
      next => cases hstep; exact .same h rfl rfl id (by simp [arrives, ClientState.pending, hreceiving]) rfl rfl
      next => cases hstep; exact .same h rfl rfl id (by simp [arrives, ClientState.pending, hreceiving]) rfl rfl
      next buffer =>
        split at hstep
        next => cases hstep
        next => cases hstep; exact .same h rfl rfl id (by simp [arrives, ClientState.pending, hreceiving]) rfl rfl
    next => cases hstep
  | write fresh =>
    simp only at hstep
    split at hstep
    next buffer hreceived =>
      split at hstep
      next => cases hstep
      next hmain =>
        obtain ⟨readerBuffer, hwrite, hresult⟩ := Option.map_eq_some_iff.mp hstep
        cases hresult
        obtain ⟨t, ht, hcursor⟩ := h.reader
        refine ⟨⟨⟨_, writeData_inv ht hwrite, fun _ => hcursor hmain⟩, h.writer⟩, ?_, ?_⟩
        · intro _
          have hpending : s.pending = buffer := by rw [ClientState.pending, hreceived]
          have hwritten := unread_write ht hwrite
          rw [inbox, inbox, hpending, hwritten]
          have hnone : ClientState.pending { s with
              socket := { s.socket with readerBuffer := readerBuffer }
              worker := if buffer.length < BUFFER_SIZE then .sending else .receiving
              received := s.received ++ buffer
              unseen := true } = [] := by
            unfold ClientState.pending
            by_cases hshort : buffer.length < BUFFER_SIZE <;> simp [hshort]
          rw [hnone, List.append_nil]
          exact .nothing _
        · intro _
          exact (List.append_nil _).symm
    next => cases hstep
  | tryToSend results => exact absurd rfl (hsend results)
  | connect | close | send | update => cases hstep

/-- `onReceived` reads the first bytes, and leaves the others. -/
theorem passed_receiving (h : Buffers s) (hmain : s.main = .receiving)
    (havailable : s.socket.readerBuffer.readAvailable ≠ 0) (readPosition : Nat) :
    Passed s (.update readPosition) { s with
      main := .cutting
      unseen := false
      socket := { s.socket with readerBuffer := s.socket.readerBuffer.readPosition readPosition } } := by
  obtain ⟨t, ht, hcursor⟩ := h.reader
  have hzero : s.socket.readerBuffer.readPos = 0 := by
    rw [ht.cursor_eq]
    exact hcursor (by simp [hmain])
  refine ⟨⟨⟨_, readPosition_spec ht readPosition, fun hne => absurd rfl hne⟩, h.writer⟩, ?_, ?_⟩
  · intro _
    have hreads : reads s (.update readPosition) =
        s.socket.readerBuffer.content.take (s.socket.readerBuffer.readPosition readPosition).readPos :=
      if_pos ⟨hmain, havailable⟩
    have hsplit : unread s.socket.readerBuffer = reads s (.update readPosition) ++
        unread (s.socket.readerBuffer.readPosition readPosition) := by
      rw [hreads, unread, hzero, List.drop_zero]
      exact (List.take_append_drop _ _).symm
    rw [inbox, hsplit, List.append_assoc]
    exact .takeAll _ _
  · intro _
    exact (List.append_nil _).symm

/-- What was read is cut off. -/
theorem passed_cutting (h : Buffers s) (hmain : s.main = .cutting) {readPosition : Nat}
    {readerBuffer : Core.ByteArray} {cut : Option (List UInt8)}
    (hcut : s.socket.readerBuffer.cutHead s.socket.readerBuffer.readPos none = some (readerBuffer, cut)) :
    Passed s (.update readPosition) { s with main := .idle, socket := { s.socket with readerBuffer := readerBuffer } } := by
  obtain ⟨t, ht, -⟩ := h.reader
  have hroom : HasRoom none (t.content.take s.socket.readerBuffer.readPos).length := by
    intro buf hbuf
    cases hbuf
  obtain ⟨b', hb', ht'⟩ := cutHead_spec ht s.socket.readerBuffer.readPos none hroom
  rw [hcut] at hb'
  obtain ⟨rfl, -⟩ := Prod.mk.inj (Option.some.inj hb')
  have hstart : (t.cutHead s.socket.readerBuffer.readPos).cursor = 0 := by
    rw [ht.cursor_eq]
    exact Nat.sub_self _
  refine ⟨⟨⟨_, ht', fun _ => hstart⟩, h.writer⟩, ?_, ?_⟩
  · intro _
    have hunread : unread readerBuffer = unread s.socket.readerBuffer := by
      rw [unread_eq ht', Tape.unread, hstart, List.drop_zero, unread, ht.content_eq]
      rfl
    have hreads : reads s (.update readPosition) = [] := if_neg (by simp [hmain])
    rw [hreads, inbox, ← hunread]
    exact .nothing _
  · intro _
    exact (List.append_nil _).symm

theorem update_passed {readPosition : Nat} (h : Buffers s)
    (hstep : mainStep s (.update readPosition) = some (s', e)) : Passed s (.update readPosition) s' := by
  have hquiet : s.main ≠ .receiving → reads s (.update readPosition) = [] := by
    intro hmain
    exact if_neg (by simp [hmain])
  simp only [mainStep] at hstep
  split at hstep
  next hpc =>
    split at hstep <;> cases hstep <;>
      exact .same h rfl rfl (by simp [hpc]) (List.append_nil _).symm (hquiet (by simp [hpc])) rfl
  next hpc => cases hstep; exact .same h rfl rfl (by simp [hpc]) (List.append_nil _).symm (hquiet (by simp [hpc])) rfl
  next hpc =>
    split at hstep <;> cases hstep <;>
      exact .same h rfl rfl (by simp [hpc]) (List.append_nil _).symm (hquiet (by simp [hpc])) rfl
  next hpc =>
    cases hstep
    obtain ⟨t, ht, -⟩ := h.reader
    refine ⟨⟨⟨_, clear_spec ht, fun _ => rfl⟩, h.writer⟩, ?_, ?_⟩
    · intro hnot
      exact absurd ⟨hpc, readPosition, rfl⟩ hnot
    · intro _
      exact (List.append_nil _).symm
  next hpc =>
    cases hstep
    obtain ⟨t, ht, hcursor⟩ := h.reader
    obtain ⟨u, hu⟩ := h.writer
    refine ⟨⟨⟨t, ht, fun _ => hcursor (by simp [hpc])⟩, ⟨_, clear_spec hu⟩⟩, ?_, ?_⟩
    · intro _
      rw [hquiet (by simp [hpc])]
      exact .nothing _
    · intro hnot
      exact absurd ⟨hpc, readPosition, rfl⟩ hnot
  next hpc => cases hstep; exact .same h rfl rfl (by simp [hpc]) (List.append_nil _).symm (hquiet (by simp [hpc])) rfl
  next hpc => cases hstep; exact .same h rfl rfl (by simp [hpc]) (List.append_nil _).symm (hquiet (by simp [hpc])) rfl
  next hpc =>
    split at hstep <;> cases hstep <;>
      exact .same h rfl rfl (by simp [hpc]) (List.append_nil _).symm (hquiet (by simp [hpc])) rfl
  next hpc =>
    split at hstep
    next havailable =>
      cases hstep
      exact passed_receiving h hpc havailable readPosition
    next havailable =>
      cases hstep
      exact .same h rfl rfl (by simp) (List.append_nil _).symm (if_neg fun hboth => havailable hboth.2) rfl
  next hpc =>
    obtain ⟨⟨readerBuffer, cut⟩, hcut, hresult⟩ := Option.map_eq_some_iff.mp hstep
    cases hresult
    exact passed_cutting h hpc hcut

theorem mainStep_passed (h : Buffers s) (hstep : mainStep s a = some (s', e)) : Passed s a s' := by
  unfold mainStep at hstep
  cases a with
  | connect =>
    have hreader := (connect_same s.socket).1
    have hwriter := (connect_cases s.socket).1
    simp only at hstep
    split at hstep
    next hcode =>
      split at hstep <;> cases hstep <;> exact .same h hreader hwriter id (List.append_nil _).symm rfl rfl
    next => cases hstep
  | close =>
    simp only at hstep
    split at hstep
    next hcode =>
      cases hstep
      have hreader : s.socket.close.readerBuffer = s.socket.readerBuffer := by
        unfold ClientSocket.close
        split <;> rfl
      exact .same h hreader (close_cases s.socket).1 id (List.append_nil _).symm rfl rfl
    next => cases hstep
  | send fresh data =>
    simp only at hstep
    split at hstep
    next hcode =>
      obtain ⟨socket, hsend, hresult⟩ := Option.map_eq_some_iff.mp hstep
      cases hresult
      obtain ⟨writerBuffer, hwrite, rfl⟩ := Option.map_eq_some_iff.mp hsend
      obtain ⟨t, ht⟩ := h.writer
      refine ⟨⟨h.reader, ⟨_, writeData_inv ht hwrite⟩⟩, ?_, ?_⟩
      · intro _
        exact .nothing _
      · intro _
        exact unread_write ht hwrite
    next => cases hstep
  | update => exact update_passed h hstep
  | poll | tryToConnect | recv | write | tryToSend => cases hstep

theorem clientStep_passed (h : Buffers s) (hsend : ∀ results, a ≠ .tryToSend results)
    (hstep : clientStep s a = some (s', e)) : Passed s a s' := by
  unfold clientStep at hstep
  cases a with
  | connect | close | send | update => exact mainStep_passed h hstep
  | poll | tryToConnect | recv | write | tryToSend => exact workerStep_passed h hsend hstep

/-! ## Sending

`tryToSend` sends the size of the buffer, also when a part of it was read before. -/

/-- A loop that is asked for more than there is, of `SendCounts`: when all that there is has been taken it
passes length 0, for which they have only an error.  (A `::send` that returns 0 there keeps the real loop going:
what it took is the same, but it does not return.) -/
theorem sendTo_unread (os : SendCounts) (fuel : Nat) : ∀ {call : Nat} {b b' : Core.ByteArray} {t : Tape UInt8}
    {remain : Nat} {ok : Bool} {sent : List UInt8}, Holds b t → t.unread.length ≤ remain → remain < 2 ^ 64 →
    ClientSocket.sendTo os fuel call b remain = some (b', ok, sent) →
    (∃ t', Holds b' t') ∧ sent <+: t.unread ∧ (ok = true → sent = t.unread ∧ unread b' = []) := by
  induction fuel with
  | zero =>
    intro call b b' t remain ok sent _ _ _ hrun
    cases hrun
  | succ fuel ih =>
    intro call b b' t remain ok sent h hle hword hrun
    rw [ClientSocket.sendTo] at hrun
    by_cases hzero : remain = 0
    · rw [if_pos hzero] at hrun
      cases hrun
      have hnil : t.unread = [] := List.length_eq_zero_iff.mp (by omega)
      refine ⟨⟨_, clear_spec h⟩, List.nil_prefix, fun _ => ⟨hnil.symm, ?_⟩⟩
      rw [unread_eq (clear_spec h)]
      rfl
    · rw [if_neg hzero] at hrun
      by_cases hnone : t.unread.length = 0
      · -- nothing is read, and the system takes nothing
        have hlength : readLength t BUFFER_SIZE = 0 := by
          have hlen := t.unread_length
          rw [readLength, if_neg (by decide)]
          omega
        have hbuf : readLength t BUFFER_SIZE ≤ (List.replicate BUFFER_SIZE (0 : UInt8)).length := by
          rw [hlength]
          exact Nat.zero_le _
        obtain ⟨b₁, hread, h₁⟩ := readData_spec h hbuf
        rw [hread, hlength] at hrun
        dsimp only at hrun
        have herror : (os call 0).val = -1 := by
          rcases (os call 0).property with herror | ⟨hone, hzero⟩
          · exact herror
          · exact absurd (Int.le_trans hone hzero) (by decide)
        rw [if_pos herror] at hrun
        cases hrun
        refine ⟨⟨_, h₁⟩, List.nil_prefix, ?_⟩
        intro hok
        cases hok
      · obtain ⟨b₁, buffer, length, hread, hpos, hlength, h₁, hbuffer⟩ := ClientSocket.readData_chunk h hnone
        rw [hread] at hrun
        dsimp only at hrun
        rcases hcount : os call length with ⟨sentLength, hbound⟩
        rw [hcount] at hrun
        dsimp only at hrun
        by_cases herror : sentLength = -1
        · rw [if_pos herror] at hrun
          cases hrun
          refine ⟨⟨_, h₁⟩, List.nil_prefix, ?_⟩
          intro hok
          cases hok
        · rw [if_neg herror] at hrun
          obtain ⟨n, rfl⟩ := Int.eq_ofNat_of_zero_le (show 0 ≤ sentLength by omega)
          have hn : n ≤ length := by omega
          have h₂ := ClientSocket.seek_unsent h₁ (by omega) hn
          have hrest : t.unread.take n ++ (t.advance n).unread = t.unread := t.peek_append_rest n
          have hsplit := congrArg List.length hrest
          rw [List.length_append, List.length_take] at hsplit
          have hremain : Word.sub64 remain n = remain - n := Word.sub64_of_le (by omega) hword
          obtain ⟨⟨b₂, ok₂, sent₂⟩, hloop, hresult⟩ := Option.map_eq_some_iff.mp hrun
          cases hresult
          rw [Int.toNat_natCast, hremain] at hloop
          obtain ⟨hheld, hprefix, hall⟩ := ih h₂ (by omega) (by omega) hloop
          rw [Int.toNat_natCast, Option.getD_some, hbuffer n hn]
          refine ⟨hheld, ?_, ?_⟩
          · have hfirst := (List.prefix_append_right_inj (t.unread.take n)).mpr hprefix
            rwa [hrest] at hfirst
          · intro hok
            obtain ⟨hsent, hempty⟩ := hall hok
            refine ⟨?_, hempty⟩
            rw [hsent, hrest]

theorem tryToSend_unread {os : SendCounts} {c c' : ClientSocket} {t : Tape UInt8} {ok : Bool} {sent : List UInt8}
    (h : Holds c.writerBuffer t) (hrun : c.tryToSendTo os = some (c', ok, sent)) :
    (∃ t', Holds c'.writerBuffer t') ∧ sent <+: unread c.writerBuffer ∧
      (ok = true → sent = unread c.writerBuffer ∧ unread c'.writerBuffer = []) ∧
      c'.readerBuffer = c.readerBuffer ∧ c'.status = c.status ∧ c'.sockfd = c.sockfd := by
  obtain ⟨⟨b', ok', sent'⟩, hloop, hresult⟩ := Option.map_eq_some_iff.mp hrun
  cases hresult
  have hw := h.writePos_eq
  have hcap := h.owned.capacity_lt
  have hwle := h.owned.write_le
  have hlen := t.unread_length
  obtain ⟨hheld, hprefix, hall⟩ := sendTo_unread os _ h (by rw [Core.ByteArray.size]; omega)
    (by rw [Core.ByteArray.size]; omega) hloop
  rw [unread_eq h]
  exact ⟨hheld, hprefix, hall, rfl, rfl, rfl⟩

/-! ## A connection -/

/-- What is still to come to the socket. -/
def Link.coming (link : Link) : List UInt8 := link.down ++ link.peer.writerBuffer.content

/-- What every step keeps of a connection. -/
structure Linked (s : ClientState) (link : Link) : Prop where
  sockfd_le : link.sockfd ≤ s.socket.sockfd
  reset : s.main.Resets → link.sockfd < s.socket.sockfd
  peer : ∃ queue, Pending link.peer.client queue
  cleared : link.readerCleared = true → s.socket.status ≠ .CONNECTED ∧ s.main ≠ .receiving
  ended : link.writerEnded = true → link.sockfd < s.socket.sockfd ∨ s.socket.status ≠ .CONNECTED ∧ Idle s.worker
  consumed : link.consumed <+: link.left ++ link.sent
  down : link.readerCleared = false → link.consumed ++ (inbox s ++ link.coming) = link.left ++ link.sent
  arrived : link.arrived ++ link.up <+: link.queued
  up : link.writerEnded = false → link.arrived ++ link.up ++ outbox s = link.queued

variable {link link' : Link}

/-- `::connect` succeeds. -/
theorem linked_new (h : Ordered s) (hworker : s.worker = .connecting)
    (hbuffers : s'.socket.readerBuffer = s.socket.readerBuffer)
    (hwriter : s'.socket.writerBuffer = s.socket.writerBuffer) (hsockfd : s'.socket.sockfd = s.socket.sockfd)
    (hmain : s'.main = s.main) (hpending : s'.pending = []) : Linked s' (.new s.socket) := by
  have hresets : ¬ s'.main.Resets := by
    rw [hmain]
    intro hresets
    cases (h.connecting hworker).symm.trans (h.resets hresets)
  have hfresh : (Link.new s.socket).peer.writerBuffer.content = [] := rfl
  refine ⟨Nat.le_of_eq hsockfd.symm, fun hreset => absurd hreset hresets, ⟨[], ofLength_holds (by decide)⟩,
    ?_, ?_, ?_, ?_, ?_, ?_⟩
  · intro hcleared
    cases hcleared
  · intro hended
    cases hended
  · exact List.nil_prefix
  · intro _
    simp [inbox, hpending, hbuffers, Link.coming, Link.new]
    exact hfresh
  · exact List.nil_prefix
  · intro _
    simp [outbox, hwriter, Link.new]

/-- What a step of the socket does to the history. -/
structure Through (s : ClientState) (link : Link) (a : ClientAction) (link' : Link) : Prop where
  same : link'.sockfd = link.sockfd ∧ link'.peer = link.peer ∧ link'.left = link.left ∧ link'.sent = link.sent ∧
    link'.arrived = link.arrived ∧ link'.up = link.up
  down : link.down = arrives a ++ link'.down
  consumed : link'.consumed = link.consumed ++ reads s a
  queued : link'.queued = link.queued ++ sends a
  readerCleared : link'.readerCleared = true ↔ link.readerCleared = true ∨ ClearsReader s a
  writerEnded : link'.writerEnded = true ↔ link.writerEnded = true ∨ ClearsWriter s a

theorem Through.quiet (harrives : arrives a = []) (hreads : reads s a = []) (hsends : sends a = [])
    (hreader : ¬ ClearsReader s a) (hwriter : ¬ ClearsWriter s a) : Through s link a link := by
  refine ⟨⟨rfl, rfl, rfl, rfl, rfl, rfl⟩, ?_, ?_, ?_, ?_, ?_⟩
  · rw [harrives, List.nil_append]
  · rw [hreads, List.append_nil]
  · rw [hsends, List.append_nil]
  · simp [hreader]
  · simp [hwriter]

/-- A step that is not one of `update` does not truncate. -/
theorem not_clears (h : ∀ readPosition, a ≠ .update readPosition) : ¬ ClearsReader s a ∧ ¬ ClearsWriter s a := by
  constructor
  · rintro ⟨-, readPosition, rfl⟩
    exact h readPosition rfl
  · rintro ⟨-, readPosition, rfl⟩
    exact h readPosition rfl

theorem socketStep_through (hlink : link.socketStep s a = some link') : Through s link a link' := by
  unfold Link.socketStep at hlink
  cases a with
  | recv result =>
    obtain ⟨hreader, hwriter⟩ := (not_clears (by simp) : ¬ ClearsReader s (.recv result) ∧ _)
    cases result with
    | nothing => cases hlink; exact .quiet rfl rfl rfl hreader hwriter
    | closed => cases hlink; exact .quiet rfl rfl rfl hreader hwriter
    | data buffer =>
      obtain ⟨⟨-, hprefix⟩, hresult⟩ := Option.ite_none_right_eq_some.mp hlink
      cases hresult
      refine ⟨⟨rfl, rfl, rfl, rfl, rfl, rfl⟩, ?_, (List.append_nil _).symm, (List.append_nil _).symm, by simp [hreader],
        by simp [hwriter]⟩
      obtain ⟨rest, hrest⟩ := hprefix
      rw [arrives, ← hrest, List.drop_left]
  | send fresh data =>
    obtain ⟨hreader, hwriter⟩ := (not_clears (by simp) : ¬ ClearsReader s (.send fresh data) ∧ _)
    cases hlink
    exact ⟨⟨rfl, rfl, rfl, rfl, rfl, rfl⟩, rfl, (List.append_nil _).symm, rfl, by simp [hreader], by simp [hwriter]⟩
  | update readPosition =>
    have hclears : ∀ {main : MainPc}, s.main = main → (ClearsReader s (.update readPosition) ↔
      main = .resetReader) ∧
        (ClearsWriter s (.update readPosition) ↔ main = .resetWriter) := by
      intro main hmain
      simp [ClearsReader, ClearsWriter, hmain]
    have hreads : s.main ≠ .receiving → reads s (.update readPosition) = [] := by
      intro hmain
      exact if_neg (by simp [hmain])
    simp only at hlink
    split at hlink
    next hmain =>
      obtain ⟨hreader, hwriter⟩ := hclears hmain
      split at hlink
      next havailable =>
        cases hlink
        refine ⟨⟨rfl, rfl, rfl, rfl, rfl, rfl⟩, rfl, ?_,
          (List.append_nil _).symm, by simp [hreader], by simp [hwriter]⟩
        rw [reads, if_pos ⟨hmain, havailable⟩]
      next havailable =>
        cases hlink
        exact .quiet rfl (if_neg fun hboth => havailable hboth.2) rfl (by simp [hreader]) (by simp [hwriter])
    next hmain =>
      obtain ⟨hreader, hwriter⟩ := hclears hmain
      cases hlink
      refine ⟨⟨rfl, rfl, rfl, rfl, rfl, rfl⟩, rfl, ?_,
        (List.append_nil _).symm, by simp [hreader], by simp [hwriter]⟩
      rw [hreads (by simp [hmain]), List.append_nil]
    next hmain =>
      obtain ⟨hreader, hwriter⟩ := hclears hmain
      cases hlink
      refine ⟨⟨rfl, rfl, rfl, rfl, rfl, rfl⟩, rfl, ?_,
        (List.append_nil _).symm, by simp [hreader], by simp [hwriter]⟩
      rw [hreads (by simp [hmain]), List.append_nil]
    next hreceiving hreset hwriting =>
      cases hlink
      obtain ⟨hreader, hwriter⟩ := hclears rfl
      exact .quiet rfl (hreads hreceiving) rfl (by rw [hreader]; exact hreset) (by rw [hwriter]; exact hwriting)
  | poll | tryToConnect result | write fresh | tryToSend results | connect | close =>
    cases hlink
    exact .quiet rfl rfl rfl (not_clears (by simp)).1 (not_clears (by simp)).2

/-- **A step of the socket**, if it does not make a new connection. -/
theorem Linked.socket (h : Linked s link) (hordered : Ordered s) (hpassed : Passed s a s') (hmoves : Moves s a s')
    (hconnect : a ≠ .tryToConnect (some true)) (hlink : link.socketStep s a = some link') : Linked s' link' := by
  obtain ⟨⟨hsockfd, hpeer, hleft, hsent, harrived, hup⟩, hdown, hconsumed, hqueued, hcleared, hended⟩ := socketStep_through hlink
  have hclosed : s.socket.status ≠ .CONNECTED → s'.socket.status ≠ .CONNECTED := by
    intro hstatus hconnected
    rcases hmoves.connected hconnected with hold | hnew
    · exact hstatus hold
    · exact hconnect hnew
  have hreads : ClearsReader s a ∨ link.readerCleared = true → reads s a = [] := by
    intro hquiet
    have hmain : s.main ≠ .receiving := by
      rcases hquiet with ⟨hmain, -⟩ | hclear
      · simp [hmain]
      · exact (h.cleared hclear).2
    cases a with
    | update readPosition => exact if_neg fun hboth => hmain hboth.1
    | poll | tryToConnect | recv | write | tryToSend | connect | close | send => rfl
  have hpassage : ¬ ClearsReader s a → link.readerCleared = false →
      link.consumed ++ reads s a ++ (inbox s' ++ link'.coming) = link.left ++ link.sent := by
    intro hnot hclear
    have hcoming : Passes link.coming [] (arrives a) link'.coming := by
      rw [Link.coming, Link.coming, hdown, hpeer, List.append_assoc]
      exact .takeAll _ _
    have hhistory := (hcoming.chain (hpassed.reader hnot)).history (h.down hclear)
    rwa [List.append_nil] at hhistory
  rw [← hleft, ← hsent] at hpassage
  refine ⟨?_, ?_, ?_, ?_, ?_, ?_, ?_, ?_, ?_⟩
  · rw [hsockfd]
    exact Nat.le_trans h.sockfd_le hmoves.sockfd_le
  · rw [hsockfd]
    intro hresets
    rcases hmoves.reset hresets with hold | hnew
    · exact Nat.lt_of_lt_of_le (h.reset hold) hmoves.sockfd_le
    · exact Nat.lt_of_le_of_lt h.sockfd_le hnew
  · rw [hpeer]
    exact h.peer
  · rw [hcleared]
    intro hclear
    have hquiet : s.socket.status ≠ .CONNECTED ∧ s.main ≠ .receiving := by
      rcases hclear with hold | ⟨hmain, -⟩
      · exact h.cleared hold
      · have hstatus := hordered.resets (by rw [hmain]; trivial)
        simp [hstatus, hmain]
    refine ⟨hclosed hquiet.1, ?_⟩
    intro hmain
    rcases hmoves.receiving hmain with hold | hnew
    · exact hquiet.2 hold
    · exact hquiet.1 hnew
  · rw [hended, hsockfd]
    rintro (hold | ⟨hmain, -⟩)
    · rcases h.ended hold with hlt | ⟨hstatus, hidle⟩
      · exact .inl (Nat.lt_of_lt_of_le hlt hmoves.sockfd_le)
      · exact .inr ⟨hclosed hstatus, hmoves.idle hidle hstatus⟩
    · exact .inl (Nat.lt_of_lt_of_le (h.reset (by rw [hmain]; trivial)) hmoves.sockfd_le)
  · rw [hconsumed]
    by_cases hquiet : ClearsReader s a ∨ link.readerCleared = true
    · rw [hreads hquiet, List.append_nil, hleft, hsent]
      exact h.consumed
    · rw [not_or, Bool.not_eq_true] at hquiet
      exact ⟨_, hpassage hquiet.1 hquiet.2⟩
  · intro hopen
    have hnot := mt hcleared.mpr (by simp [hopen])
    rw [not_or, Bool.not_eq_true] at hnot
    rw [hconsumed]
    exact hpassage hnot.2 hnot.1
  · rw [harrived, hup, hqueued]
    exact h.arrived.trans (List.prefix_append _ _)
  · intro hopen
    have hnot := mt hended.mpr (by simp [hopen])
    rw [not_or, Bool.not_eq_true] at hnot
    rw [harrived, hup, hqueued, hpassed.writer hnot.2, ← List.append_assoc, h.up hnot.1]

/-- What a step of the server keeps: `put` is passed to `Client::send` in it. -/
theorem Linked.peer_step (h : Linked s link) {peer : Peer} {down up sent arrived put : List UInt8}
    (hpeer : ∃ queue, Pending peer.client queue) (hsent : sent = link.sent ++ put)
    (hcoming : down ++ peer.writerBuffer.content = link.coming ++ put)
    (hup : arrived ++ up = link.arrived ++ link.up) :
    Linked s { link with peer := peer, down := down, up := up, sent := sent, arrived := arrived } := by
  subst hsent
  refine ⟨h.sockfd_le, h.reset, hpeer, h.cleared, h.ended, ?_, ?_, ?_, ?_⟩
  · rw [← List.append_assoc]
    exact h.consumed.trans (List.prefix_append _ _)
  · intro hopen
    rw [Link.coming, hcoming, ← List.append_assoc link.left, ← h.down hopen]
    simp [List.append_assoc]
  · rw [hup]
    exact h.arrived
  · intro hopen
    rw [hup]
    exact h.up hopen

theorem Linked.reader (h : Linked s link) (reader : Receive.Client) {up arrived : List UInt8}
    (hup : arrived ++ up = link.arrived ++ link.up) :
    Linked s { link with peer.reader := reader, up := up, arrived := arrived } := by
  refine h.peer_step h.peer (List.append_nil _).symm ?_ hup
  rw [List.append_nil, Link.coming]

theorem Linked.read {action : Receive.Action} {event : Option Receive.Event} (h : Linked s link)
    (hstep : link.read action = some (link', event)) : Linked s link' := by
  obtain ⟨⟨reader, event'⟩, -, hresult⟩ := Option.map_eq_some_iff.mp hstep
  cases hresult
  exact h.reader reader rfl

/-- A call of `Client::send`. -/
theorem Linked.send (h : Linked s link) {call : Network.Event} {client : Client} {data : List UInt8}
    (hcall : Network.step link.peer.client call = some (client, [])) (hdata : call.data = data) :
    Linked s { link with peer.writerBuffer := client.writerBuffer, sent := link.sent ++ data } := by
  obtain ⟨queue, hqueue⟩ := h.peer
  obtain ⟨queue', hqueue', hsplit⟩ := step_inv hqueue call hcall
  refine h.peer_step ⟨queue', hqueue'⟩ rfl ?_ rfl
  rw [hdata, List.nil_append] at hsplit
  have hold : link.peer.writerBuffer.content = queue := hqueue.content_eq
  have hnew : client.writerBuffer.content = queue' := hqueue'.content_eq
  rw [Link.coming, hold, hnew, hsplit, List.append_assoc]

/-- A call of `writeFromBuffer`. -/
theorem Linked.write {os : Os} {action : Bool → Receive.Action} {event : Option Receive.Event} (h : Linked s link)
    (hstep : link.write os action = some (link', event)) : Linked s link' := by
  unfold Link.write at hstep
  split at hstep
  next => cases hstep
  next client sent hwrite =>
    obtain ⟨⟨reader, event'⟩, -, hresult⟩ := Option.map_eq_some_iff.mp hstep
    cases hresult
    obtain ⟨queue, hqueue⟩ := h.peer
    obtain ⟨queue', hqueue', hsplit⟩ := step_inv hqueue (.flushClient os) hwrite
    refine h.peer_step ⟨queue', hqueue'⟩ (List.append_nil _).symm ?_ rfl
    have hold : link.peer.writerBuffer.content = queue := hqueue.content_eq
    have hnew : client.writerBuffer.content = queue' := hqueue'.content_eq
    rw [Event.data, List.append_nil] at hsplit
    rw [Link.coming, hold, hnew, List.append_nil, List.append_assoc, hsplit]

/-- **A step of the server.** -/
theorem Linked.server {action : ServerAction} {event : Option Receive.Event} (h : Linked s link)
    (hstep : link.serverStep action = some (link', event)) : Linked s link' := by
  unfold Link.serverStep at hstep
  cases action with
  | send fresh data =>
    obtain ⟨client, hsend, hresult⟩ := Option.map_eq_some_iff.mp hstep
    cases hresult
    have hcall : Network.step link.peer.client (.send fresh data) = some (client, []) := by
      rw [Network.step, hsend]
      rfl
    exact h.send hcall rfl
  | sendPacket fresh packet =>
    obtain ⟨client, hsend, hresult⟩ := Option.map_eq_some_iff.mp hstep
    cases hresult
    have hcall : Network.step link.peer.client (.sendPacket fresh packet) = some (client, []) := by
      rw [Network.step, hsend]
      rfl
    exact h.send hcall rfl
  | recv result =>
    cases result with
    | data buffer =>
      obtain ⟨⟨rest, hrest⟩, hread⟩ := Option.ite_none_right_eq_some.mp hstep
      refine Linked.read (h.reader link.peer.reader ?_) hread
      rw [← hrest, List.drop_left, List.append_assoc]
    | closed => exact h.read hstep
    | wouldBlock => exact h.read hstep
  | epollIn => exact h.read hstep
  | notify => exact h.read hstep
  | epollRdhup => exact h.read hstep
  | epollOut os => exact h.write hstep
  | update os =>
    dsimp only at hstep
    split at hstep
    next => exact h.write hstep
    next => exact h.read hstep

/-! ## Runs -/

structure Inv (conn : Connection) : Prop where
  ordered : Ordered conn.socket
  buffers : Buffers conn.socket
  linked : ∀ link, conn.link = some link → Linked conn.socket link

variable {conn conn' : Connection} {event : Option Event}

theorem new_inv : Inv .new := by
  refine ⟨⟨?_, ?_⟩, ⟨?_, ?_⟩, ?_⟩
  · intro hworker
    cases hworker
  · intro hmain
    cases hmain
  · exact ⟨_, ofLength_holds (by decide), fun _ => rfl⟩
  · exact ⟨_, ofLength_holds (by decide)⟩
  · intro link hlink
    cases hlink

/-- The state of the socket when `tryToSend` has returned. -/
theorem sent_inv {os : SendCounts} {socket : ClientSocket} {ok : Bool} {sent : List UInt8} (hordered : Ordered s)
    (hbuffers : Buffers s) (hrun : s.socket.tryToSendTo os = some (socket, ok, sent)) :
    Ordered { s with socket := if ok then socket else { socket with status := .DISCONNECTED }, worker := .loop } ∧
      Buffers { s with socket := if ok then socket else { socket with status := .DISCONNECTED }, worker := .loop } := by
  obtain ⟨t, ht⟩ := hbuffers.writer
  obtain ⟨hwriter, -, -, hreader, hstatus, -⟩ := tryToSend_unread ht hrun
  cases ok with
  | true =>
    refine ⟨⟨?_, ?_⟩, ⟨?_, hwriter⟩⟩
    · intro hworker
      cases hworker
    · intro hmain
      exact hstatus.trans (hordered.resets hmain)
    · simp only [if_true, hreader]
      exact hbuffers.reader
  | false =>
    refine ⟨⟨?_, ?_⟩, ⟨?_, hwriter⟩⟩
    · intro hworker
      cases hworker
    · intro _
      rfl
    · simp only [Bool.false_eq_true, if_false, hreader]
      exact hbuffers.reader

theorem sent_same {os : SendCounts} {socket : ClientSocket} {ok : Bool} {sent : List UInt8} (hbuffers : Buffers s)
    (hworker : s.worker = .sending) (hrun : s.socket.tryToSendTo os = some (socket, ok, sent)) :
    (if ok then socket else { socket with status := .DISCONNECTED }).sockfd = s.socket.sockfd ∧
      inbox { s with socket := if ok then socket else { socket with status := .DISCONNECTED }, worker := .loop } = inbox s ∧
      ((if ok then socket else { socket with status := .DISCONNECTED }).status = .CONNECTED →
        s.socket.status = .CONNECTED) := by
  obtain ⟨t, ht⟩ := hbuffers.writer
  obtain ⟨-, -, -, hreader, hstatus, hsockfd⟩ := tryToSend_unread ht hrun
  cases ok <;> simp [hsockfd, hstatus, inbox, hreader, hworker, ClientState.pending]

/-- **`tryToSend`** hands over what comes first. -/
theorem Linked.sent {os : SendCounts} {socket : ClientSocket} {ok : Bool} {sent : List UInt8} (h : Linked s link)
    (hbuffers : Buffers s) (hworker : s.worker = .sending)
    (hrun : s.socket.tryToSendTo os = some (socket, ok, sent)) (hsent : sent = [] ∨ s.socket.sockfd = link.sockfd) :
    Linked { s with socket := if ok then socket else { socket with status := .DISCONNECTED }, worker := .loop }
      { link with up := link.up ++ sent, writerEnded := link.writerEnded || !ok } := by
  obtain ⟨t, ht⟩ := hbuffers.writer
  obtain ⟨-, hprefix, hall, -⟩ := tryToSend_unread ht hrun
  have hnone : link.writerEnded = true → sent = [] ∧ link.sockfd < s.socket.sockfd := by
    intro hended
    rcases h.ended hended with hlt | ⟨-, hidle⟩
    · rcases hsent with hnil | heq
      · exact ⟨hnil, hlt⟩
      · exact absurd heq (Nat.ne_of_gt hlt)
    · rw [hworker] at hidle
      exact hidle.elim
  obtain ⟨hnumber, hinbox, hconnected⟩ := sent_same hbuffers hworker hrun
  refine ⟨?_, ?_, h.peer, ?_, ?_, h.consumed, ?_, ?_, ?_⟩
  · rw [hnumber]
    exact h.sockfd_le
  · rw [hnumber]
    exact h.reset
  · intro hcleared
    obtain ⟨hclosed, hmain⟩ := h.cleared hcleared
    exact ⟨mt hconnected hclosed, hmain⟩
  · intro hended
    rw [hnumber]
    rcases Bool.or_eq_true_iff.mp hended with hold | hfailed
    · exact .inl (hnone hold).2
    · rw [Bool.not_eq_true'] at hfailed
      refine .inr ⟨?_, trivial⟩
      simp [hfailed]
  · intro hopen
    rw [hinbox]
    exact h.down hopen
  · by_cases hended : link.writerEnded = true
    · rw [(hnone hended).1, List.append_nil]
      exact h.arrived
    · have hup := h.up (Bool.eq_false_iff.mpr hended)
      obtain ⟨rest, hrest⟩ := hprefix
      refine ⟨rest, ?_⟩
      rw [← hup, outbox, ← hrest]
      simp [List.append_assoc]
  · intro hopen
    obtain ⟨hold, hok⟩ := Bool.or_eq_false_iff.mp hopen
    rw [Bool.not_eq_false'] at hok
    subst hok
    obtain ⟨hsent, hempty⟩ := hall rfl
    rw [← h.up hold, outbox, outbox, hsent]
    simp [hempty, List.append_assoc]

theorem connected_cases (hstep : clientStep s (.tryToConnect (some true)) = some (s', e)) :
    s.worker = .connecting ∧ s' = { s with worker := .loop, socket := { s.socket with status := .CONNECTED } } := by
  unfold clientStep workerStep at hstep
  dsimp only at hstep
  split at hstep
  next hworker =>
    cases hstep
    exact ⟨hworker, rfl⟩
  next => cases hstep

theorem socketStep_inv (h : Inv conn) (hstep : conn.socketStep a = some (conn', event)) : Inv conn' := by
  unfold Connection.socketStep at hstep
  split at hstep
  next => cases hstep
  next => cases hstep
  next socket e hclient =>
    cases hstep
    have hmoves := clientStep_moves h.ordered hclient
    have hpassed := clientStep_passed h.buffers (by simp) hclient
    refine ⟨hmoves.ordered, hpassed.buffers, ?_⟩
    intro link hlink
    cases hlink
    obtain ⟨hworker, rfl⟩ := connected_cases hclient
    exact linked_new h.ordered hworker rfl rfl rfl rfl rfl
  next action socket e hsend hconnect hclient =>
    have hmoves := clientStep_moves h.ordered hclient
    have hpassed := clientStep_passed h.buffers hsend hclient
    split at hstep
    next hnone =>
      cases hstep
      refine ⟨hmoves.ordered, hpassed.buffers, ?_⟩
      intro link hlink
      cases hlink
    next link hlink =>
      obtain ⟨link', hpast, hresult⟩ := Option.map_eq_some_iff.mp hstep
      cases hresult
      refine ⟨hmoves.ordered, hpassed.buffers, ?_⟩
      intro other hother
      cases hother
      exact (h.linked link hlink).socket h.ordered hpassed hmoves hconnect hpast

theorem tryToSend_inv {os : SendCounts} (h : Inv conn) (hstep : conn.tryToSend os = some (conn', event)) :
    Inv conn' := by
  unfold Connection.tryToSend at hstep
  split at hstep
  next socket ok sent hworker hrun =>
    obtain ⟨hordered, hbuffers⟩ := sent_inv h.ordered h.buffers hrun
    dsimp only at hstep
    split at hstep
    next hnone =>
      obtain ⟨-, hresult⟩ := Option.ite_none_right_eq_some.mp hstep
      cases hresult
      refine ⟨hordered, hbuffers, ?_⟩
      intro link hlink
      cases hlink
    next link hlink =>
      obtain ⟨hsent, hresult⟩ := Option.ite_none_right_eq_some.mp hstep
      cases hresult
      refine ⟨hordered, hbuffers, ?_⟩
      intro other hother
      cases hother
      exact (h.linked link hlink).sent h.buffers hworker hrun hsent
  next => cases hstep

theorem serverStep_inv {action : ServerAction} (h : Inv conn)
    (hstep : conn.serverStep action = some (conn', event)) : Inv conn' := by
  unfold Connection.serverStep at hstep
  split at hstep
  next => cases hstep
  next link hlink =>
    obtain ⟨⟨link', event'⟩, hserver, hresult⟩ := Option.map_eq_some_iff.mp hstep
    cases hresult
    refine ⟨h.ordered, h.buffers, ?_⟩
    intro other hother
    cases hother
    exact (h.linked link hlink).server hserver

/-- **One step** of either side. -/
theorem step_inv {action : Action} (h : Inv conn) (hstep : step conn action = some (conn', event)) : Inv conn' := by
  cases action with
  | socket action => exact socketStep_inv h hstep
  | tryToSend os => exact tryToSend_inv h hstep
  | server action => exact serverStep_inv h hstep

theorem run_inv {actions : List Action} {out : List (Option Event)}
    (hrun : runOps step .new actions = some (conn, out)) : Inv conn :=
  runOps_inv (fun conn _ _ => Inv conn) (fun _ _ _ _ _ _ h hstep => step_inv h hstep) new_inv hrun

/-! ## A program that waits for the end of a session -/

/-- The program does not close the session, and connects again when `update` has looked at the end of the last
one. -/
def Patient (s : ClientState) : ClientAction → Prop
  | .close => False
  | .connect => s.socket.status = .DISCONNECTED → s.socket.lastStatus = .DISCONNECTED
  | _ => True

instance (s : ClientState) : DecidablePred (Patient s)
  | .close => isFalse id
  | .connect => inferInstanceAs (Decidable (s.socket.status = .DISCONNECTED → s.socket.lastStatus = .DISCONNECTED))
  | .poll | .tryToConnect _ | .recv _ | .write _ | .tryToSend _ | .send .. | .update _ => isTrue trivial

/-- Before a session there is nothing to read. -/
structure Clean (s : ClientState) : Prop where
  worker : s.worker.Fits s.socket.status
  last : s.socket.lastStatus = .DISCONNECTED → s.socket.status = .DISCONNECTED
  empty : s.socket.status = .CONNECTING ∨
      s.socket.lastStatus = .DISCONNECTED ∧ s.main ≠ .switching ∧ s.main ≠ .resetReader → inbox s = []

theorem Clean.pending (h : Clean s) (hstatus : s.socket.status ≠ .CONNECTED) : s.pending = [] := by
  have hworker := h.worker
  unfold ClientState.pending
  cases hpc : s.worker with
  | received buffer =>
    rw [hpc] at hworker
    exact absurd hworker hstatus
  | loop | connecting | receiving | sending => rfl

/-- What the socket has in its hands is not more after a step than before. -/
theorem inbox_nil (hpassed : Passed s a s') (hclears : ¬ ClearsReader s a) (harrives : arrives a = [])
    (h : inbox s = []) : inbox s' = [] := by
  have hreader := hpassed.reader hclears
  rw [harrives, h] at hreader
  exact (List.append_eq_nil_iff.mp hreader.symm).2

theorem Clean.same (h : Clean s) (hstatus : s'.socket.status = s.socket.status)
    (hlast : s'.socket.lastStatus = s.socket.lastStatus) (hworker : s'.worker.Fits s.socket.status)
    (hmain : s'.main ≠ .switching ∧ s'.main ≠ .resetReader → s.main ≠ .switching ∧ s.main ≠ .resetReader)
    (hinbox : inbox s = [] → inbox s' = []) : Clean s' := by
  refine ⟨?_, ?_, ?_⟩
  · rw [hstatus]
    exact hworker
  · rw [hstatus, hlast]
    exact h.last
  · rw [hstatus, hlast]
    rintro (hconnecting | ⟨hold, hpc⟩)
    · exact hinbox (h.empty (.inl hconnecting))
    · exact hinbox (h.empty (.inr ⟨hold, hmain hpc⟩))

/-- The worker begins or ends a session. -/
theorem Clean.changed (h : Clean s) (hopen : s.socket.status ≠ .DISCONNECTED)
    (hstatus : s'.socket.status ≠ .CONNECTING)
    (hlast : s'.socket.lastStatus = s.socket.lastStatus) (hworker : s'.worker = .loop) : Clean s' := by
  have hnot : s'.socket.lastStatus ≠ .DISCONNECTED := by
    rw [hlast]
    exact mt h.last hopen
  refine ⟨?_, ?_, ?_⟩
  · rw [hworker]
    trivial
  · intro heq
    exact absurd heq hnot
  · rintro (hconnecting | ⟨heq, -⟩)
    · exact absurd hconnecting hstatus
    · exact absurd heq hnot

theorem poll_clean (h : Clean s) (hpassed : Passed s .poll s')
    (hstep : workerStep s .poll = some (s', e)) : Clean s' := by
  have hinbox := inbox_nil hpassed (not_clears (by simp)).1 rfl
  simp only [workerStep] at hstep
  split at hstep
  next hloop =>
    split at hstep
    next hstatus => cases hstep; exact h.same rfl rfl hstatus id hinbox
    next hstatus => cases hstep; exact h.same rfl rfl hstatus id hinbox
    next => cases hstep; exact h
  next => cases hstep

theorem tryToConnect_clean {result : Option Bool} (h : Clean s) (hpassed : Passed s (.tryToConnect result) s')
    (hstep : workerStep s (.tryToConnect result) = some (s', e)) : Clean s' := by
  have hworker := h.worker
  have hinbox := inbox_nil hpassed (not_clears (by simp)).1 rfl
  simp only [workerStep] at hstep
  split at hstep
  next hconnecting =>
    rw [hconnecting] at hworker
    have hstatus : s.socket.status = .CONNECTING := hworker
    split at hstep
    next => cases hstep; exact h.same rfl rfl trivial id hinbox
    next ok =>
      cases hstep
      refine h.changed (by simp [hstatus]) ?_ rfl rfl
      cases ok <;> simp
  next => cases hstep

theorem recv_clean {result : RecvResult} (h : Clean s) (hpassed : Passed s (.recv result) s')
    (hstep : workerStep s (.recv result) = some (s', e)) : Clean s' := by
  have hworker := h.worker
  simp only [workerStep] at hstep
  split at hstep
  next hreceiving =>
    rw [hreceiving] at hworker
    have hstatus : s.socket.status = .CONNECTED := hworker
    split at hstep
    next =>
      cases hstep
      exact h.same rfl rfl hworker id (inbox_nil hpassed (not_clears (by simp)).1 rfl)
    next =>
      cases hstep
      exact h.changed (by simp [hstatus]) (by simp) rfl rfl
    next buffer =>
      split at hstep
      next => cases hstep
      next =>
        -- nothing is asked of a session
        cases hstep
        refine ⟨hworker, h.last, ?_⟩
        rintro (hconnecting | ⟨hlast, -⟩)
        · cases hstatus.symm.trans hconnecting
        · cases hstatus.symm.trans (h.last hlast)
  next => cases hstep

theorem write_clean {fresh : Nat → UInt8} (h : Clean s) (hpassed : Passed s (.write fresh) s')
    (hstep : workerStep s (.write fresh) = some (s', e)) : Clean s' := by
  have hworker := h.worker
  have hinbox := inbox_nil hpassed (not_clears (by simp)).1 rfl
  simp only [workerStep] at hstep
  split at hstep
  next buffer hreceived =>
    rw [hreceived] at hworker
    split at hstep
    next => cases hstep
    next =>
      obtain ⟨readerBuffer, -, hresult⟩ := Option.map_eq_some_iff.mp hstep
      cases hresult
      refine h.same rfl rfl ?_ id hinbox
      dsimp only
      split <;> exact hworker
  next => cases hstep

theorem tryToSend_clean {results : List Int} (h : Clean s) (hpassed : Passed s (.tryToSend results) s')
    (hstep : workerStep s (.tryToSend results) = some (s', e)) : Clean s' := by
  have hworker := h.worker
  have hinbox := inbox_nil hpassed (not_clears (by simp)).1 rfl
  simp only [workerStep] at hstep
  split at hstep
  next hsending =>
    rw [hsending] at hworker
    have hstatus : s.socket.status = .CONNECTED := hworker
    obtain ⟨⟨socket, ok, sent⟩, hsend, hresult⟩ := Option.map_eq_some_iff.mp hstep
    cases hresult
    obtain ⟨⟨writerBuffer, ok', sent'⟩, -, hsame⟩ := Option.map_eq_some_iff.mp hsend
    cases hsame
    cases ok with
    | true => exact h.same rfl rfl trivial id hinbox
    | false => exact h.changed (by simp [hstatus]) (by simp) rfl rfl
  next => cases hstep

theorem workerStep_clean (h : Clean s) (hpassed : Passed s a s') (hstep : workerStep s a = some (s', e)) :
    Clean s' := by
  cases a with
  | poll => exact poll_clean h hpassed hstep
  | tryToConnect => exact tryToConnect_clean h hpassed hstep
  | recv => exact recv_clean h hpassed hstep
  | write => exact write_clean h hpassed hstep
  | tryToSend => exact tryToSend_clean h hpassed hstep
  | connect | close | send | update => cases hstep

/-- A step in a session, or before one. -/
theorem Clean.opened (h : Clean s) (hopen : s.socket.status ≠ .DISCONNECTED)
    (hstatus : s'.socket.status = s.socket.status)
    (hlast : s'.socket.lastStatus = s.socket.lastStatus) (hworker : s'.worker = s.worker)
    (hinbox : inbox s = [] → inbox s' = []) : Clean s' := by
  refine ⟨?_, ?_, ?_⟩
  · rw [hstatus, hworker]
    exact h.worker
  · rw [hstatus, hlast]
    exact h.last
  · rw [hstatus, hlast]
    rintro (hconnecting | ⟨hold, -⟩)
    · exact hinbox (h.empty (.inl hconnecting))
    · exact absurd (h.last hold) hopen

theorem connect_clean (h : Clean s) (hcode : s.main.userCode = true) (hstatus : s.socket.status = .DISCONNECTED)
    (hlast : s.socket.lastStatus = .DISCONNECTED) {session : Nat} (hinbox : inbox s = [] → inbox s' = [])
    (hs' : s' = { s with socket := s.socket.connect, session := session, unseen := false }) : Clean s' := by
  have hcleared : inbox s = [] := by
    refine h.empty (.inr ⟨hlast, ?_⟩)
    constructor
    · intro hmain
      simp [hmain, MainPc.userCode] at hcode
    · intro hmain
      simp [hmain, MainPc.userCode] at hcode
  have hnew : s.socket.connect.status = .CONNECTING ∧ s.socket.connect.lastStatus = .CONNECTING := by
    unfold ClientSocket.connect
    by_cases hzero : s.socket.sockfd = 0 <;> simp [hstatus, hzero]
  have hworker := h.worker
  rw [hstatus] at hworker
  refine ⟨?_, ?_, fun _ => hinbox hcleared⟩
  · subst hs'
    cases hpc : s.worker <;> rw [hpc] at hworker <;> trivial
  · subst hs'
    intro heq
    cases hnew.2.symm.trans heq

theorem update_clean {readPosition : Nat} (h : Clean s) (hordered : Ordered s)
    (hpassed : Passed s (.update readPosition) s') (hstep : mainStep s (.update readPosition) = some (s', e)) :
    Clean s' := by
  have hworker := h.worker
  have hinbox : s.main ≠ .resetReader → inbox s = [] → inbox s' = [] := by
    intro hmain
    exact inbox_nil hpassed (fun hclears => hmain hclears.1) rfl
  simp only [mainStep] at hstep
  split at hstep
  next hpc =>
    split at hstep <;> cases hstep <;> exact h.same rfl rfl hworker (by simp [hpc]) (hinbox (by simp [hpc]))
  next hpc =>
    cases hstep
    refine ⟨hworker, id, ?_⟩
    rintro (hconnecting | ⟨-, hmain, -⟩)
    · exact hinbox (by simp [hpc]) (h.empty (.inl hconnecting))
    · exact absurd rfl hmain
  next hpc =>
    split at hstep
    next hstatus => cases hstep; exact h.same rfl rfl hworker (by simp) (hinbox (by simp [hpc]))
    next hstatus => cases hstep; exact h.opened (by simp [hstatus]) rfl rfl rfl (hinbox (by simp [hpc]))
    next hstatus => cases hstep; exact h.opened (by simp [hstatus]) rfl rfl rfl (hinbox (by simp [hpc]))
  next hpc =>
    -- `readerBuffer` is truncated, and the worker has nothing in its hands
    cases hstep
    have hstatus := hordered.resets (by rw [hpc]; trivial)
    have hpending := h.pending (by simp [hstatus])
    refine ⟨hworker, h.last, fun _ => ?_⟩
    rw [inbox, unread]
    exact List.append_eq_nil_iff.mpr ⟨rfl, hpending⟩
  next hpc => cases hstep; exact h.same rfl rfl hworker (by simp [hpc]) (hinbox (by simp [hpc]))
  next hpc => cases hstep; exact h.same rfl rfl hworker (by simp [hpc]) (hinbox (by simp [hpc]))
  next hpc => cases hstep; exact h.same rfl rfl hworker (by simp [hpc]) (hinbox (by simp [hpc]))
  next hpc =>
    split at hstep <;> cases hstep <;> exact h.same rfl rfl hworker (by simp [hpc]) (hinbox (by simp [hpc]))
  next hpc =>
    split at hstep
    next => cases hstep; exact h.same rfl rfl hworker (by simp [hpc]) (hinbox (by simp [hpc]))
    next => cases hstep; exact h.same rfl rfl hworker (by simp [hpc]) (hinbox (by simp [hpc]))
  next hpc =>
    obtain ⟨⟨readerBuffer, cut⟩, -, hresult⟩ := Option.map_eq_some_iff.mp hstep
    cases hresult
    exact h.same rfl rfl hworker (by simp [hpc]) (hinbox (by simp [hpc]))

theorem mainStep_clean (h : Clean s) (hordered : Ordered s) (hpassed : Passed s a s') (hpatient : Patient s a)
    (hstep : mainStep s a = some (s', e)) : Clean s' := by
  have hworker := h.worker
  unfold mainStep at hstep
  cases a with
  | connect =>
    have hinbox := inbox_nil hpassed (not_clears (by simp)).1 rfl
    simp only at hstep
    split at hstep
    next hcode =>
      split at hstep
      next hstatus =>
        cases hstep
        exact connect_clean h hcode hstatus (hpatient hstatus) hinbox rfl
      next hstatus =>
        cases hstep
        have hsame : s.socket.connect.status = s.socket.status ∧
          s.socket.connect.lastStatus = s.socket.lastStatus := by
          unfold ClientSocket.connect
          cases hopen : s.socket.status <;> by_cases hzero : s.socket.sockfd = 0 <;> simp_all
        exact h.opened hstatus hsame.1 hsame.2 rfl hinbox
    next => cases hstep
  | close => exact hpatient.elim
  | send fresh data =>
    have hinbox := inbox_nil hpassed (not_clears (by simp)).1 rfl
    simp only at hstep
    split at hstep
    next hcode =>
      obtain ⟨socket, hsend, hresult⟩ := Option.map_eq_some_iff.mp hstep
      cases hresult
      obtain ⟨writerBuffer, -, rfl⟩ := Option.map_eq_some_iff.mp hsend
      exact h.same rfl rfl hworker id hinbox
    next => cases hstep
  | update => exact update_clean h hordered hpassed hstep
  | poll | tryToConnect | recv | write | tryToSend => cases hstep

theorem clientStep_clean (h : Clean s) (hordered : Ordered s) (hpassed : Passed s a s') (hpatient : Patient s a)
    (hstep : clientStep s a = some (s', e)) : Clean s' := by
  unfold clientStep at hstep
  cases a with
  | connect | close | send | update => exact mainStep_clean h hordered hpassed hpatient hstep
  | poll | tryToConnect | recv | write | tryToSend => exact workerStep_clean h hpassed hstep

theorem sent_clean {os : SendCounts} {socket : ClientSocket} {ok : Bool} {sent : List UInt8} (h : Clean s)
    (hbuffers : Buffers s) (hworker : s.worker = .sending)
    (hrun : s.socket.tryToSendTo os = some (socket, ok, sent)) :
    Clean { s with socket := if ok then socket else { socket with status := .DISCONNECTED }, worker := .loop } := by
  have hfits := h.worker
  rw [hworker] at hfits
  have hopen : s.socket.status = .CONNECTED := hfits
  obtain ⟨t, ht⟩ := hbuffers.writer
  obtain ⟨-, hinbox, -⟩ := sent_same hbuffers hworker hrun
  obtain ⟨-, -, -, -, hstatus, -⟩ := tryToSend_unread ht hrun
  have hlast : socket.lastStatus = s.socket.lastStatus := by
    obtain ⟨⟨b', ok', sent'⟩, -, hresult⟩ := Option.map_eq_some_iff.mp hrun
    cases hresult
    rfl
  cases ok with
  | true =>
    refine h.same hstatus hlast trivial id ?_
    intro hnil
    exact hinbox.trans hnil
  | false => exact h.changed (by simp [hopen]) (by simp) hlast rfl

theorem read_left {action : Receive.Action} {event : Option Receive.Event}
    (hstep : link.read action = some (link', event)) : link'.left = link.left := by
  obtain ⟨⟨reader, event'⟩, -, hresult⟩ := Option.map_eq_some_iff.mp hstep
  cases hresult
  rfl

theorem write_left {os : Os} {action : Bool → Receive.Action} {event : Option Receive.Event}
    (hstep : link.write os action = some (link', event)) : link'.left = link.left := by
  unfold Link.write at hstep
  split at hstep
  next => cases hstep
  next =>
    obtain ⟨⟨reader, event'⟩, -, hresult⟩ := Option.map_eq_some_iff.mp hstep
    cases hresult
    rfl

theorem serverStep_left {action : ServerAction} {event : Option Receive.Event}
    (hstep : link.serverStep action = some (link', event)) : link'.left = link.left := by
  unfold Link.serverStep at hstep
  cases action with
  | send fresh data =>
    obtain ⟨client, -, hresult⟩ := Option.map_eq_some_iff.mp hstep
    cases hresult
    rfl
  | sendPacket fresh packet =>
    obtain ⟨client, -, hresult⟩ := Option.map_eq_some_iff.mp hstep
    cases hresult
    rfl
  | recv result =>
    cases result with
    | data buffer =>
      obtain ⟨-, hread⟩ := Option.ite_none_right_eq_some.mp hstep
      have hleft := read_left hread
      exact hleft
    | closed => exact read_left hstep
    | wouldBlock => exact read_left hstep
  | epollIn => exact read_left hstep
  | notify => exact read_left hstep
  | epollRdhup => exact read_left hstep
  | epollOut os => exact write_left hstep
  | update os =>
    dsimp only at hstep
    split at hstep
    next => exact write_left hstep
    next => exact read_left hstep

def PatientAction (conn : Connection) : Action → Prop
  | .socket action => Patient conn.socket action
  | _ => True

instance (conn : Connection) : DecidablePred (PatientAction conn)
  | .socket action => inferInstanceAs (Decidable (Patient conn.socket action))
  | .tryToSend _ | .server _ => isTrue trivial

/-- Each connection begins with nothing to read. -/
structure Fresh (conn : Connection) : Prop where
  inv : Inv conn
  clean : Clean conn.socket
  left : ∀ link, conn.link = some link → link.left = []

theorem new_fresh : Fresh .new := by
  refine ⟨new_inv, ⟨trivial, fun _ => rfl, fun _ => rfl⟩, ?_⟩
  intro link hlink
  cases hlink

theorem socketStep_fresh (h : Fresh conn) (hpatient : Patient conn.socket a)
    (hstep : conn.socketStep a = some (conn', event)) : Fresh conn' := by
  have hinv := socketStep_inv h.inv hstep
  unfold Connection.socketStep at hstep
  split at hstep
  next => cases hstep
  next => cases hstep
  next socket e hclient =>
    cases hstep
    have hpassed := clientStep_passed h.inv.buffers (by simp) hclient
    refine ⟨hinv, clientStep_clean h.clean h.inv.ordered hpassed hpatient hclient, ?_⟩
    intro link hlink
    cases hlink
    obtain ⟨hworker, -⟩ := connected_cases hclient
    have hempty := h.clean.empty (.inl (h.inv.ordered.connecting hworker))
    exact (List.append_eq_nil_iff.mp hempty).1
  next action socket e hsend hconnect hclient =>
    have hpassed := clientStep_passed h.inv.buffers hsend hclient
    have hclean := clientStep_clean h.clean h.inv.ordered hpassed hpatient hclient
    split at hstep
    next hnone =>
      cases hstep
      refine ⟨hinv, hclean, ?_⟩
      intro link hlink
      cases hlink
    next link hlink =>
      obtain ⟨link', hpast, hresult⟩ := Option.map_eq_some_iff.mp hstep
      cases hresult
      refine ⟨hinv, hclean, ?_⟩
      intro other hother
      cases hother
      exact (socketStep_through hpast).same.2.2.1.trans (h.left link hlink)

theorem step_fresh {action : Action} (h : Fresh conn) (hpatient : PatientAction conn action)
    (hstep : step conn action = some (conn', event)) : Fresh conn' := by
  have hinv := step_inv h.inv hstep
  cases action with
  | socket action => exact socketStep_fresh h hpatient hstep
  | tryToSend os =>
    change conn.tryToSend os = some (conn', event) at hstep
    unfold Connection.tryToSend at hstep
    split at hstep
    next socket ok sent hworker hrun =>
      have hclean := sent_clean h.clean h.inv.buffers hworker hrun
      dsimp only at hstep
      split at hstep
      next hnone =>
        obtain ⟨-, hresult⟩ := Option.ite_none_right_eq_some.mp hstep
        cases hresult
        refine ⟨hinv, hclean, ?_⟩
        intro link hlink
        cases hlink
      next link hlink =>
        obtain ⟨-, hresult⟩ := Option.ite_none_right_eq_some.mp hstep
        cases hresult
        refine ⟨hinv, hclean, ?_⟩
        intro other hother
        cases hother
        exact h.left link hlink
    next => cases hstep
  | server action =>
    change conn.serverStep action = some (conn', event) at hstep
    unfold Connection.serverStep at hstep
    split at hstep
    next => cases hstep
    next link hlink =>
      obtain ⟨⟨link', event'⟩, hserver, hresult⟩ := Option.map_eq_some_iff.mp hstep
      cases hresult
      refine ⟨hinv, h.clean, ?_⟩
      intro other hother
      cases hother
      exact (serverStep_left hserver).trans (h.left link hlink)

/-! ## From end to end -/

/-- A client that has sent three bytes, of which the program has read one; and the other way round, two. -/
def exchange : List Action :=
  [.socket .connect, .socket (.send (fun _ => 0) (some [9])), .socket .poll, .socket (.tryToConnect (some true)),
    .server (.send (fun _ => 0) (some [1, 2, 3])),
    .server (.epollOut fun _ length => .sent (min 2 length) (Nat.min_le_right _ _)),
    .socket (.send (fun _ => 0) (some [8])), .socket .poll, .socket (.recv (.data [1, 2])), .socket (.write fun _ => 0),
    .tryToSend SendCounts.bytewise,
    .server .epollIn, .server (.recv (.data [9])), .socket (.update 0), .socket (.update 0), .socket (.update 0),
    .socket (.update 0), .socket (.update 0), .socket (.update 1), .socket (.update 0)]

theorem exchange_defined : (runOps step .new exchange).isSome := by decide +kernel

def exchanged : Connection × List (Option Event) := (runOps step .new exchange).get exchange_defined

theorem exchange_run : runOps step .new exchange = some (exchanged.1, exchanged.2) := by
  rw [Prod.eta]
  exact (Option.some_get exchange_defined).symm

theorem exchange_linked : exchanged.1.link.isSome := by decide +kernel

def exchangedLink : Link := exchanged.1.link.get exchange_linked

theorem exchange_link : exchanged.1.link = some exchangedLink := (Option.some_get exchange_linked).symm

/-- **From the server to the program.**  Whatever the threads of both sides and the system do: what `onReceived`
has read on a connection is the first part of what `readerBuffer` had left and of what was passed to
`Client::send`; and until `reset`, all of that is read, or still to be read, or on its way. -/
theorem stream_to_client (actions : List Action) (conn : Connection) (out : List (Option Event))
    (hrun : runOps step .new actions = some (conn, out)) (link : Link) (hlink : conn.link = some link) :
    link.consumed <+: link.left ++ link.sent ∧
      (link.readerCleared = false → link.consumed ++ (inbox conn.socket ++ link.coming) =
        link.left ++ link.sent) := by
  have h := (run_inv hrun).linked link hlink
  exact ⟨h.consumed, h.down⟩

theorem stream_to_client_exchange : ∃ conn out link, runOps step .new exchange = some (conn, out) ∧
    conn.link = some link ∧ link.consumed = [1] ∧ link.sent = [1, 2, 3] ∧ link.readerCleared = false ∧
    link.consumed <+: link.left ++ link.sent ∧
      (link.readerCleared = false → link.consumed ++ (inbox conn.socket ++ link.coming) = link.left ++ link.sent) :=
  ⟨_, _, _, exchange_run, exchange_link, by decide +kernel, by decide +kernel, by decide +kernel,
    stream_to_client _ _ _ exchange_run _ exchange_link⟩

/-- **From the program to the server.**  What the server appends to the `readerBuffer` of its client, and what
is on its way, is the first part of what `writerBuffer` had and of what was passed to `ClientSocket::send`; and
until a send fails, or `reset`, the rest of that is in `writerBuffer`. -/
theorem stream_to_server (actions : List Action) (conn : Connection) (out : List (Option Event))
    (hrun : runOps step .new actions = some (conn, out)) (link : Link) (hlink : conn.link = some link) :
    link.arrived ++ link.up <+: link.queued ∧
      (link.writerEnded = false → link.arrived ++ link.up ++ outbox conn.socket = link.queued) := by
  have h := (run_inv hrun).linked link hlink
  exact ⟨h.arrived, h.up⟩

theorem stream_to_server_exchange : ∃ conn out link, runOps step .new exchange = some (conn, out) ∧
    conn.link = some link ∧
    link.arrived = [9] ∧ link.up = [8] ∧ link.queued = [9, 8] ∧ link.arrived ++ link.up <+: link.queued ∧
      (link.writerEnded = false → link.arrived ++ link.up ++ outbox conn.socket = link.queued) :=
  ⟨_, _, _, exchange_run, exchange_link, by decide +kernel, by decide +kernel, by decide +kernel,
    stream_to_server _ _ _ exchange_run _ exchange_link⟩

/-- **Nothing but what was sent on the connection.**  A program that does not close a session, and waits for its
end before it connects again, reads what was passed to `Client::send` on this very connection, from the first
byte on. -/
theorem read_as_sent (actions : List Action) (conn : Connection) (out : List (Option Event))
    (hrun : runOps step .new actions = some (conn, out))
    (hpatient : Along step PatientAction .new actions) (link : Link)
    (hlink : conn.link = some link) :
    link.consumed <+: link.sent ∧
      (link.readerCleared = false → link.consumed ++ (inbox conn.socket ++ link.coming) = link.sent) := by
  have hfresh := runOps_trace (fun conn _ _ => Fresh conn)
    (fun _ _ _ _ _ _ h hok hstep => step_fresh h hok hstep) actions
    .new conn [] [] out new_fresh hpatient hrun
  have hlinked := hfresh.inv.linked link hlink
  have hleft := hfresh.left link hlink
  refine ⟨?_, ?_⟩
  · have hconsumed := hlinked.consumed
    rwa [hleft, List.nil_append] at hconsumed
  · have hdown := hlinked.down
    rwa [hleft, List.nil_append] at hdown

theorem read_as_sent_exchange : ∃ conn out link, runOps step .new exchange = some (conn, out) ∧
    conn.link = some link ∧ link.consumed = [1] ∧ link.consumed <+: link.sent ∧
      (link.readerCleared = false → link.consumed ++ (inbox conn.socket ++ link.coming) = link.sent) :=
  ⟨_, _, _, exchange_run, exchange_link, by decide +kernel,
    read_as_sent _ _ _ exchange_run (by decide +kernel) _ exchange_link⟩

end Libws.Network.Connections
