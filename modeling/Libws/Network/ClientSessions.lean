import Libws.Network.ClientDelivery

/-!
# Between two connection attempts of a `ClientSocket`

* `Moment` — the `::connect` calls of the worker, and what `reset` and `update` do between them;
* `Renewed` — since every attempt the socket is new, the buffers were emptied, and the close of a
  session that was connected was reported;
* `Reported` — the program calls `connect` for a closed socket only when `update` has reported that;
* `every_attempt_renewed` — every run of such calls renews the session before each attempt.
-/

set_option autoImplicit false

namespace Libws.Network

open Libws.Machine Libws.Trace

inductive Moment where
  /-- `::connect`, and whether it succeeds -/
  | connect (ok : Bool)
  /-- `reset` closes the socket and opens a new one -/
  | newSocket
  | readerTruncated
  | writerTruncated
  | onClosed
  deriving DecidableEq, Repr

/-- What the step does of that. -/
def moment (s : ClientState) : ClientAction → Option Moment
  | .tryToConnect (some ok) => some (.connect ok)
  | .update _ =>
    match s.main with
    | .switching => if s.socket.status = .DISCONNECTED then some .newSocket else none
    | .resetReader => some .readerTruncated
    | .resetWriter => some .writerTruncated
    | .closed => some .onClosed
    | _ => none
  | _ => none

/-- The client, and whether the worker has called `::connect` since `update` last reported a close. -/
structure Session where
  client : ClientState
  attempted : Bool
  deriving DecidableEq, Repr

def Session.new : Session := ⟨ClientState.new, false⟩

def attemptedAfter (attempted : Bool) : Option Moment → Bool
  | some (.connect _) => true
  | some .onClosed => false
  | _ => attempted

def sessionStep (s : Session) (a : ClientAction) : Option (Session × Option Moment) :=
  (clientStep s.client a).map fun (client, _) =>
    (⟨client, attemptedAfter s.attempted (moment s.client a)⟩, moment s.client a)

def IsAttempt (m : Option Moment) : Prop := ∃ ok, m = some (.connect ok)

def IsConnection (m : Option Moment) : Prop := m = some (.connect true)

/-- Since every attempt `reset` has run, and since every connection `onClosed` was called. -/
structure Renewed (out : List (Option Moment)) : Prop where
  newSocket : Since IsAttempt (some .newSocket) out
  readerTruncated : Since IsAttempt (some .readerTruncated) out
  writerTruncated : Since IsAttempt (some .writerTruncated) out
  onClosed : Since IsConnection (some .onClosed) out

/-- Before each attempt, the session was renewed. -/
def AttemptsRenewed : List (Option Moment) → Prop := Before fun m before => IsAttempt m → Renewed before

/-- `connect` is called for a closed socket only when `update` has reported the close of the last attempt. -/
def Reported (s : Session) : ClientAction → Prop
  | .connect => s.client.socket.status = .DISCONNECTED → s.attempted = false
  | _ => True

instance (s : Session) : DecidablePred (Reported s)
  | .connect => inferInstanceAs (Decidable (s.client.socket.status = .DISCONNECTED → s.attempted = false))
  | .poll | .tryToConnect _ | .recv _ | .write _ | .tryToSend _ | .close | .send .. | .update _ => isTrue trivial

/-! ## Invariant -/

/-- The steps of `reset` that are behind the main thread. -/
structure Renewing (s : Session) (out : List (Option Moment)) : Prop where
  connecting : s.client.worker = .connecting → s.client.socket.status = .CONNECTING
  resets : s.client.main.Resets → s.client.socket.status = .DISCONNECTED
  fresh : s.client.socket.status = .CONNECTING → s.attempted = false
  newSocket : s.attempted = false ∨ s.client.main.Resets → Since IsAttempt (some .newSocket) out
  readerTruncated : s.attempted = false ∨ s.client.main = .resetWriter ∨ s.client.main = .closed →
    Since IsAttempt (some .readerTruncated) out
  writerTruncated : s.attempted = false ∨ s.client.main = .closed → Since IsAttempt (some .writerTruncated) out
  onClosed : s.attempted = false → Since IsAttempt (some .onClosed) out

theorem not_isAttempt {m : Option Moment} (h : ∀ ok, m ≠ some (.connect ok)) : ¬ IsAttempt m :=
  fun ⟨ok, hm⟩ => h ok hm

variable {s : Session} {out : List (Option Moment)} {client : ClientState}

/-- A step without a moment. -/
theorem Renewing.quiet (h : Renewing s out) (hconnecting : client.worker = .connecting →
    client.socket.status = .CONNECTING) (hresets : client.main.Resets → client.socket.status = .DISCONNECTED)
    (hfresh : client.socket.status = .CONNECTING → s.attempted = false)
    (hmain : client.main = s.client.main ∨ ¬ client.main.Resets) :
    Renewing ⟨client, s.attempted⟩ (out ++ [none]) := by
  have hnone : ¬ IsAttempt none := not_isAttempt nofun
  refine ⟨hconnecting, hresets, hfresh, fun hnew => ?_, fun hreader => ?_, fun hwriter => ?_, fun hclosed => ?_⟩
  · refine (h.newSocket ?_).concat hnone
    rcases hmain with hsame | hnot
    · rwa [← hsame]
    · exact Or.inl (hnew.resolve_right hnot)
  · refine (h.readerTruncated ?_).concat hnone
    rcases hmain with hsame | hnot
    · rwa [← hsame]
    · refine Or.inl (hreader.resolve_right fun hpc => hnot ?_)
      rcases hpc with hpc | hpc <;> rw [hpc] <;> trivial
  · refine (h.writerTruncated ?_).concat hnone
    rcases hmain with hsame | hnot
    · rwa [← hsame]
    · refine Or.inl (hwriter.resolve_right fun hpc => hnot ?_)
      rw [hpc]
      trivial
  · exact (h.onClosed hclosed).concat hnone

/-- The worker's other steps: it may find the session ended. -/
theorem Renewing.worker (h : Renewing s out) (hworker : client.worker ≠ .connecting)
    (hmain : client.main = s.client.main)
    (hstatus : client.socket.status = s.client.socket.status ∨ client.socket.status = .DISCONNECTED) :
    Renewing ⟨client, s.attempted⟩ (out ++ [none]) := by
  refine h.quiet (fun hpc => absurd hpc hworker) (fun hreset => ?_) (fun hconnecting => ?_) (Or.inl hmain)
  · rcases hstatus with hsame | hended
    · rw [hsame]
      exact h.resets (hmain ▸ hreset)
    · exact hended
  · rcases hstatus with hsame | hended
    · exact h.fresh (hsame.symm.trans hconnecting)
    · rw [hended] at hconnecting
      cases hconnecting

/-- The main thread goes on outside of `reset`. -/
theorem Renewing.main (h : Renewing s out) (hmain : ¬ client.main.Resets)
    (hworker : client.worker = s.client.worker)
    (hstatus : client.socket.status = s.client.socket.status) : Renewing ⟨client, s.attempted⟩ (out ++ [none]) :=
  h.quiet (fun hpc => hstatus.trans (h.connecting (hworker ▸ hpc))) (fun hreset => absurd hreset hmain)
    (fun hconnecting => h.fresh (hstatus.symm.trans hconnecting)) (Or.inr hmain)

/-- `::connect`: no `reset` is under way, and all has been renewed. -/
theorem Renewing.attempt (h : Renewing s out) (hworker : s.client.worker = .connecting) (ok : Bool) :
    Renewed out ∧ Renewing ⟨{ s.client with
      worker := .loop
      socket := { s.client.socket with status := if ok then .CONNECTED else .DISCONNECTED } }, true⟩
      (out ++ [some (.connect ok)]) := by
  have hstatus := h.connecting hworker
  have hfresh := h.fresh hstatus
  have hmain : ¬ s.client.main.Resets := fun hreset => by
    rw [h.resets hreset] at hstatus
    cases hstatus
  have hclosed : s.client.main ≠ .closed := fun hpc => hmain (by rw [hpc]; trivial)
  have hwriter : s.client.main ≠ .resetWriter := fun hpc => hmain (by rw [hpc]; trivial)
  refine ⟨⟨h.newSocket (Or.inl hfresh), h.readerTruncated (Or.inl hfresh), h.writerTruncated (Or.inl hfresh),
    (h.onClosed hfresh).imp fun m hm => ⟨true, hm⟩⟩, nofun, fun hreset => absurd hreset hmain, fun hconnecting => ?_,
    fun hnew => ?_, fun hreader => ?_, fun hwriter => ?_, nofun⟩
  · cases ok <;> cases hconnecting
  · rcases hnew with hnew | hnew
    · cases hnew
    · exact absurd hnew hmain
  · rcases hreader with hreader | hreader | hreader
    · cases hreader
    · exact absurd hreader hwriter
    · exact absurd hreader hclosed
  · rcases hwriter with hwriter | hwriter
    · cases hwriter
    · exact absurd hwriter hclosed

/-! ## The steps of `reset` -/

theorem Renewing.openSocket (h : Renewing s out) (hstatus : s.client.socket.status = .DISCONNECTED) (sockfd : Nat) :
    Renewing ⟨{ s.client with main := .resetReader, socket := { s.client.socket with sockfd := sockfd } },
      s.attempted⟩
      (out ++ [some .newSocket]) where
  connecting := h.connecting
  resets _ := hstatus
  fresh := h.fresh
  newSocket _ := Since.here out (not_isAttempt nofun)
  readerTruncated hreader := by
    have hfresh : s.attempted = false := by simpa using hreader
    exact (h.readerTruncated (Or.inl hfresh)).concat (not_isAttempt nofun)
  writerTruncated hwriter := by
    have hfresh : s.attempted = false := by simpa using hwriter
    exact (h.writerTruncated (Or.inl hfresh)).concat (not_isAttempt nofun)
  onClosed hfresh := (h.onClosed hfresh).concat (not_isAttempt nofun)

theorem Renewing.truncateReader (h : Renewing s out) (hmain : s.client.main = .resetReader)
    (readerBuffer : Core.ByteArray) :
    Renewing ⟨{ s.client with
      main := .resetWriter
      socket := { s.client.socket with readerBuffer := readerBuffer } }, s.attempted⟩ (out ++
        [some .readerTruncated]) where
  connecting := h.connecting
  resets _ := h.resets (by rw [hmain]; trivial)
  fresh := h.fresh
  newSocket _ := (h.newSocket (Or.inr (by rw [hmain]; trivial))).concat (not_isAttempt nofun)
  readerTruncated _ := Since.here out (not_isAttempt nofun)
  writerTruncated hwriter := by
    have hfresh : s.attempted = false := by simpa using hwriter
    exact (h.writerTruncated (Or.inl hfresh)).concat (not_isAttempt nofun)
  onClosed hfresh := (h.onClosed hfresh).concat (not_isAttempt nofun)

theorem Renewing.truncateWriter (h : Renewing s out) (hmain : s.client.main = .resetWriter)
    (writerBuffer : Core.ByteArray) :
    Renewing ⟨{ s.client with
      main := .closed
      socket := { s.client.socket with writerBuffer := writerBuffer } }, s.attempted⟩ (out ++
        [some .writerTruncated]) where
  connecting := h.connecting
  resets _ := h.resets (by rw [hmain]; trivial)
  fresh := h.fresh
  newSocket _ := (h.newSocket (Or.inr (by rw [hmain]; trivial))).concat (not_isAttempt nofun)
  readerTruncated _ := (h.readerTruncated (Or.inr (Or.inl hmain))).concat (not_isAttempt nofun)
  writerTruncated _ := Since.here out (not_isAttempt nofun)
  onClosed hfresh := (h.onClosed hfresh).concat (not_isAttempt nofun)

/-- All of `reset` has run. -/
theorem Renewing.report (h : Renewing s out) (hmain : s.client.main = .closed) :
    Renewing ⟨{ s.client with main := .callback }, false⟩ (out ++ [some .onClosed]) where
  connecting := h.connecting
  resets hreset := hreset.elim
  fresh _ := rfl
  newSocket _ := (h.newSocket (Or.inr (by rw [hmain]; trivial))).concat (not_isAttempt nofun)
  readerTruncated _ := (h.readerTruncated (Or.inr (Or.inr hmain))).concat (not_isAttempt nofun)
  writerTruncated _ := (h.writerTruncated (Or.inr hmain)).concat (not_isAttempt nofun)
  onClosed _ := Since.here out (not_isAttempt nofun)

/-! ## The calls of the program -/

theorem not_resets {main : MainPc} (h : main.userCode = true) : ¬ main.Resets := by
  cases main <;> first | exact id | cases h

theorem Renewing.connect (h : Renewing s out) (hcode : s.client.main.userCode = true)
    (hreported : Reported s .connect)
    (hsocket : client.socket = s.client.socket.connect) (hworker : client.worker = s.client.worker)
    (hmain : client.main = s.client.main) : Renewing ⟨client, s.attempted⟩ (out ++ [none]) := by
  obtain ⟨-, hbegins, hsame⟩ := connect_same s.client.socket
  refine h.quiet (fun hpc => ?_) (fun hreset => absurd (hmain ▸ hreset) (not_resets hcode)) (fun hconnecting => ?_)
    (Or.inl hmain)
  · have hstatus := h.connecting (hworker ▸ hpc)
    rw [hsocket, hsame (by simp [hstatus]), hstatus]
  · by_cases hstatus : s.client.socket.status = .DISCONNECTED
    · exact hreported hstatus
    · rw [hsocket, hsame hstatus] at hconnecting
      exact h.fresh hconnecting

/-- `close` does nothing to a socket that connects. -/
theorem close_status (c : ClientSocket) :
    c.close.status = c.status ∧ c.status ≠ .CONNECTED ∨ c.close.status = .DISCONNECTED ∧ c.status = .CONNECTED := by
  unfold ClientSocket.close ClientSocket.isConnected
  cases hstatus : c.status <;> simp [hstatus]

theorem Renewing.close (h : Renewing s out) (hcode : s.client.main.userCode = true) :
    Renewing ⟨{ s.client with socket := s.client.socket.close }, s.attempted⟩ (out ++ [none]) := by
  refine h.quiet (fun hpc => ?_) (fun hreset => absurd hreset (not_resets hcode))
    (fun hconnecting => ?_) (Or.inl rfl) <;>
    rcases close_status s.client.socket with ⟨hsame, -⟩ | ⟨hended, hwas⟩
  · exact hsame.trans (h.connecting hpc)
  · rw [h.connecting hpc] at hwas
    cases hwas
  · exact h.fresh (hsame.symm.trans hconnecting)
  · cases hended.symm.trans hconnecting

/-! ## Runs -/

/-- **The main thread.** -/
theorem mainStep_renewing {a : ClientAction} {r : Option ClientEvent} (h : Renewing s out)
    (hreported : Reported s a) (hstep : mainStep s.client a = some (client, r)) :
    (¬ IsAttempt (moment s.client a)) ∧
      Renewing ⟨client, attemptedAfter s.attempted (moment s.client a)⟩ (out ++ [moment s.client a]) := by
  have hnone : ¬ IsAttempt none := not_isAttempt nofun
  unfold mainStep at hstep
  cases a with
  | connect =>
    simp only at hstep
    split at hstep
    · rename_i hcode
      split at hstep <;> cases hstep <;> exact ⟨hnone, h.connect hcode hreported rfl rfl rfl⟩
    · cases hstep
  | close =>
    simp only at hstep
    split at hstep
    · rename_i hcode
      cases hstep
      exact ⟨hnone, h.close hcode⟩
    · cases hstep
  | send fresh data =>
    simp only at hstep
    split at hstep
    · rename_i hcode
      obtain ⟨socket, hsend, hresult⟩ := Option.map_eq_some_iff.mp hstep
      cases hresult
      obtain ⟨writerBuffer, -, rfl⟩ := Option.map_eq_some_iff.mp hsend
      exact ⟨hnone, h.main (not_resets hcode) rfl rfl⟩
    · cases hstep
  | update readPosition =>
    simp only at hstep
    cases hpc : s.client.main <;> simp only [hpc] at hstep <;> simp only [moment, hpc]
    case idle => split at hstep <;> cases hstep <;> exact ⟨hnone, h.main id rfl rfl⟩
    case changed =>
      cases hstep
      exact ⟨hnone, h.main id rfl rfl⟩
    case switching =>
      split at hstep <;> rename_i hstatus <;> cases hstep
      · rw [if_pos hstatus]
        exact ⟨not_isAttempt nofun, h.openSocket hstatus _⟩
      · rw [if_neg (by simp [hstatus])]
        exact ⟨hnone, h.main id rfl rfl⟩
      · rw [if_neg (by simp [hstatus])]
        exact ⟨hnone, h.main id rfl rfl⟩
    case resetReader =>
      cases hstep
      exact ⟨not_isAttempt nofun, h.truncateReader hpc _⟩
    case resetWriter =>
      cases hstep
      exact ⟨not_isAttempt nofun, h.truncateWriter hpc _⟩
    case closed =>
      cases hstep
      exact ⟨not_isAttempt nofun, h.report hpc⟩
    case callback =>
      cases hstep
      exact ⟨hnone, h.main id rfl rfl⟩
    case testing => split at hstep <;> cases hstep <;> exact ⟨hnone, h.main id rfl rfl⟩
    case receiving => split at hstep <;> cases hstep <;> exact ⟨hnone, h.main id rfl rfl⟩
    case cutting =>
      obtain ⟨⟨readerBuffer, rest⟩, -, hresult⟩ := Option.map_eq_some_iff.mp hstep
      cases hresult
      exact ⟨hnone, h.main id rfl rfl⟩
  | poll | tryToConnect | recv | write | tryToSend => cases hstep

theorem tryToSend_status {c c' : ClientSocket} {results : List Int} {ok : Bool} {sent : List UInt8}
    (h : c.tryToSend results = some (c', ok, sent)) : c'.status = c.status := by
  obtain ⟨⟨writerBuffer, ok, sent⟩, -, hresult⟩ := Option.map_eq_some_iff.mp h
  cases hresult
  rfl

/-- **The worker.** -/
theorem workerStep_renewing {a : ClientAction} {r : Option ClientEvent} (h : Renewing s out)
    (hstep : workerStep s.client a = some (client, r)) :
    (IsAttempt (moment s.client a) → Renewed out) ∧
      Renewing ⟨client, attemptedAfter s.attempted (moment s.client a)⟩ (out ++ [moment s.client a]) := by
  have hnone : IsAttempt none → Renewed out := fun ⟨_, hm⟩ => nomatch hm
  unfold workerStep at hstep
  cases a with
  | poll =>
    simp only at hstep
    split at hstep
    · rename_i hloop
      split at hstep <;> rename_i hstatus <;> cases hstep
      · exact ⟨hnone, h.quiet (fun _ => hstatus) h.resets h.fresh (Or.inl rfl)⟩
      · exact ⟨hnone, h.worker nofun rfl (Or.inl rfl)⟩
      · exact ⟨hnone, h.worker (by rw [hloop]; decide) rfl (Or.inl rfl)⟩
    · cases hstep
  | tryToConnect result =>
    simp only at hstep
    split at hstep
    · rename_i hconnecting
      cases result with
      | none =>
        cases hstep
        exact ⟨hnone, h.worker nofun rfl (Or.inl rfl)⟩
      | some ok =>
        cases hstep
        obtain ⟨hrenewed, hnext⟩ := h.attempt hconnecting ok
        exact ⟨fun _ => hrenewed, hnext⟩
    · cases hstep
  | recv result =>
    simp only at hstep
    split at hstep
    · cases result with
      | nothing =>
        cases hstep
        exact ⟨hnone, h.worker nofun rfl (Or.inl rfl)⟩
      | closed =>
        cases hstep
        exact ⟨hnone, h.worker nofun rfl (Or.inr rfl)⟩
      | data buffer =>
        simp only at hstep
        split at hstep <;> cases hstep
        exact ⟨hnone, h.worker nofun rfl (Or.inl rfl)⟩
    · cases hstep
  | write fresh =>
    simp only at hstep
    split at hstep
    · split at hstep
      · cases hstep
      · obtain ⟨readerBuffer, -, hresult⟩ := Option.map_eq_some_iff.mp hstep
        cases hresult
        refine ⟨hnone, h.worker ?_ rfl (Or.inl rfl)⟩
        simp only
        split <;> nofun
    · cases hstep
  | tryToSend results =>
    simp only at hstep
    split at hstep
    · obtain ⟨⟨socket, ok, sent⟩, hsend, hresult⟩ := Option.map_eq_some_iff.mp hstep
      cases hresult
      refine ⟨hnone, h.worker nofun rfl ?_⟩
      cases ok
      · exact Or.inr rfl
      · exact Or.inl (tryToSend_status hsend)
    · cases hstep
  | connect | close | send | update => cases hstep

/-- **One step of either thread.** -/
theorem sessionStep_renewing {s' : Session} {a : ClientAction} {m : Option Moment} (h : Renewing s out)
    (hreported : Reported s a) (hstep : sessionStep s a = some (s', m)) :
    (IsAttempt m → Renewed out) ∧ Renewing s' (out ++ [m]) := by
  obtain ⟨⟨client, r⟩, hclient, hresult⟩ := Option.map_eq_some_iff.mp hstep
  cases hresult
  unfold clientStep at hclient
  cases a with
  | connect | close | send | update =>
    obtain ⟨hnot, hnext⟩ := mainStep_renewing h hreported hclient
    exact ⟨fun hattempt => absurd hattempt hnot, hnext⟩
  | poll | tryToConnect | recv | write | tryToSend => exact workerStep_renewing h hclient

theorem Renewing.new : Renewing Session.new [] where
  connecting hpc := by cases hpc
  resets hreset := hreset.elim
  fresh _ := rfl
  newSocket _ := since_nil _ _
  readerTruncated _ := since_nil _ _
  writerTruncated _ := since_nil _ _
  onClosed _ := since_nil _ _

/-- **Every attempt is renewed**, in every run in which the program connects a closed socket only after
`update` has reported its close. -/
theorem every_attempt_renewed (actions : List ClientAction) (s : Session) (out : List (Option Moment))
    (hrun : runOps sessionStep Session.new actions = some (s, out))
    (hreported : Along sessionStep Reported Session.new actions) : AttemptsRenewed out := by
  have hstep : ∀ (s : Session) (_ : List ClientAction) (out : List (Option Moment))
    (a : ClientAction) (s' : Session)
      (m : Option Moment), Renewing s out ∧ AttemptsRenewed out → Reported s a → sessionStep s a = some (s', m) →
      Renewing s' (out ++ [m]) ∧ AttemptsRenewed (out ++ [m]) := by
    rintro s - out a s' m ⟨hrenewing, hattempts⟩ hok hstep
    obtain ⟨hattempt, hnext⟩ := sessionStep_renewing hrenewing hok hstep
    exact ⟨hnext, Before.concat hattempts hattempt⟩
  exact (runOps_trace _ hstep actions Session.new s [] [] out ⟨Renewing.new, before_nil _⟩ hreported hrun).2

/-- Up to the end of the first session. -/
def connectAndClose : List ClientAction :=
  [.connect, .poll, .tryToConnect (some true), .update 0, .update 0, .update 0, .poll, .recv .closed]

/-- `update` goes through `reset`, and the next session begins in `onClosed`. -/
theorem every_attempt_renewed_twice : ∃ s out,
    runOps sessionStep Session.new (connectAndClose ++ [.update 0, .update 0, .update 0, .update 0, .update 0, .update 0,
      .update 0, .update 0, .connect, .poll, .tryToConnect (some false)]) = some (s, out) ∧
      out.reduceOption = [.connect true, .newSocket, .readerTruncated, .writerTruncated, .onClosed,
        .connect false] ∧
      AttemptsRenewed out := by
  have hrun : (runOps sessionStep Session.new (connectAndClose ++ [.update 0, .update 0, .update 0, .update 0, .update 0,
      .update 0, .update 0, .update 0, .connect, .poll, .tryToConnect (some false)])).map
        (fun r => r.2.reduceOption) =
      some [.connect true, .newSocket, .readerTruncated, .writerTruncated, .onClosed, .connect false] := by
    decide +kernel
  obtain ⟨⟨s, out⟩, hrun, hout⟩ := Option.map_eq_some_iff.mp hrun
  exact ⟨s, out, hrun, hout, every_attempt_renewed _ s out hrun (by decide +kernel)⟩

/-- **The program connects again before `update` has seen the end of the session**: there is no `reset`
and no `onClosed` between the two attempts. -/
theorem attempts_without_reset : ¬ ∀ (actions : List ClientAction) (s : Session) (out : List (Option Moment)),
    runOps sessionStep Session.new actions = some (s, out) → AttemptsRenewed out := by
  intro hclaim
  have hrun : (runOps sessionStep Session.new (connectAndClose ++ [.connect, .poll, .tryToConnect (some true)])).map
      (·.2) = some [none, none, some (.connect true), none, none, none, none, none, none, none,
        some (.connect true)] := by
    decide +kernel
  obtain ⟨⟨s, out⟩, hrun, hout⟩ := Option.map_eq_some_iff.mp hrun
  have hattempts := hclaim _ s out hrun
  rw [show out = _ from hout] at hattempts
  have hmem := (hattempts 10 _ rfl ⟨true, rfl⟩).newSocket 2 _ rfl ⟨true, rfl⟩
  simp at hmem

end Libws.Network
