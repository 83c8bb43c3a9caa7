import Libws.Lib.Machine
import Libws.Lib.Trace
import Libws.Network.ServerSocket

/-!
# What a client of the Linux server receives, and its end

Model of `readIntoBuffer`, of the events of one client in `processEventThread`, and of `update` for
that client, of `wsNetwork/src/ServerSocket.cpp`.  The socket thread and the main thread share two
flags without a lock; each access to a flag or to `readerBuffer` is a step of its own, and what
`recv` returns comes with the step that uses it.

* `handedOver` — all that was appended before the client is destroyed was followed by an `onRecv`;
* `InTime` — no flag is raised behind the back of an `update` that will not look again.
-/

set_option autoImplicit false

namespace Libws.Network.Receive

open Libws.Machine Libws.Trace

/-- Where the socket thread is in `readIntoBuffer`. -/
inductive SocketPc where
  /-- between two events of the client -/
  | waiting
  /-- before the first `recv` -/
  | reading
  /-- before the `recv` behind a full buffer -/
  | again
  /-- before `hasNewData = true` -/
  | notifying
  deriving DecidableEq, Repr

/-- Where the main thread is with the client in `update`. -/
inductive MainPc where
  /-- before `if (client->hasNewData)` -/
  | idle
  /-- before `hasNewData = false` -/
  | clearing
  /-- before `onRecv()` -/
  | receiving
  /-- before `flushClient` -/
  | flushing
  /-- before `if (client->isClosing)` -/
  | testing
  | destroyed
  deriving DecidableEq, Repr

structure Client where
  isClosing : Bool
  hasNewData : Bool
  socket : SocketPc
  main : MainPc
  /-- history: something was appended to `readerBuffer` since the last `onRecv` began -/
  unseen : Bool
  deriving DecidableEq, Repr

/-- A client that `addClient` has made. -/
def Client.new : Client := ⟨false, false, .waiting, .idle, false⟩

inductive Event where
  | appended (buffer : List UInt8)
  | onRecv
  | destroyed
  deriving DecidableEq, Repr

inductive RecvResult where
  | data (buffer : List UInt8)
  /-- 0, or an error that is not one of the next kind -/
  | closed
  /-- `EWOULDBLOCK` or `EAGAIN` -/
  | wouldBlock
  deriving DecidableEq, Repr

inductive Action where
  /-- `EPOLLIN`: `readIntoBuffer` tests `isClosing` -/
  | epollIn
  | recv (result : RecvResult)
  /-- `hasNewData = true` -/
  | notify
  /-- `EPOLLOUT`: `writeFromBuffer`, and whether it meets an error -/
  | epollOut (failed : Bool)
  | epollRdhup
  /-- the next access of `update`; `failed` if it is `flushClient` and that meets an error -/
  | update (failed : Bool)
  deriving DecidableEq, Repr

/-- `writeClientBuffer`, and the next turn of the loop. -/
def append (client : Client) (buffer : List UInt8) : Option (Client × Option Event) :=
  if buffer.length = 0 ∨ buffer.length > BUFFER_SIZE then none
  else
    some ({ client with
      unseen := true
      socket := if buffer.length < BUFFER_SIZE then .notifying else .again }, some (.appended buffer))

def socketStep (client : Client) : Action → Option (Client × Option Event)
  | .epollIn =>
    match client.socket with
    | .waiting => if client.isClosing then some (client, none) else some ({ client with socket := .reading }, none)
    | _ => none
  | .recv result =>
    match client.socket, result with
    | .reading, .data buffer | .again, .data buffer => append client buffer
    | .reading, .closed => some ({ client with isClosing := true, socket := .waiting }, none)
    | .again, .closed => some ({ client with isClosing := true, socket := .notifying }, none)
    | .reading, .wouldBlock | .again, .wouldBlock => some ({ client with socket := .notifying }, none)
    | _, _ => none
  | .notify =>
    match client.socket with
    | .notifying => some ({ client with hasNewData := true, socket := .waiting }, none)
    | _ => none
  | .epollOut failed =>
    match client.socket with
    | .waiting => some ({ client with isClosing := client.isClosing || failed }, none)
    | _ => none
  | .epollRdhup =>
    match client.socket with
    | .waiting => some ({ client with isClosing := true }, none)
    | _ => none
  | .update _ => none

/-- `update` for the client, without a `kickTime`. -/
def updateStep (client : Client) (failed : Bool) : Option (Client × Option Event) :=
  match client.main with
  | .idle => some ({ client with main := if client.hasNewData then .clearing else .flushing }, none)
  | .clearing => some ({ client with main := .receiving, hasNewData := false }, none)
  | .receiving => some ({ client with main := .flushing, unseen := false }, some .onRecv)
  | .flushing => some ({ client with main := .testing, isClosing := client.isClosing || failed }, none)
  | .testing =>
    if client.isClosing then some ({ client with main := .destroyed }, some .destroyed)
    else some ({ client with main := .idle }, none)
  | .destroyed => none

/-- One step of either thread; none for a client that was destroyed. -/
def step (client : Client) (action : Action) : Option (Client × Option Event) :=
  if client.main = .destroyed then none
  else
    match action with
    | .update failed => updateStep client failed
    | .epollIn | .recv _ | .notify | .epollOut _ | .epollRdhup => socketStep client action

/-! ## What is handed over -/

/-- Each append has an `onRecv` behind it. -/
def Followed (out : List (Option Event)) : Prop :=
  ∀ (k : Nat) buffer, out[k]? = some (some (.appended buffer)) → ∃ j : Nat, k < j ∧ out[j]? = some (some .onRecv)

/-- What was appended before the client was destroyed has an `onRecv` behind it. -/
def HandedOver : List (Option Event) → Prop := Before fun e before => e = some .destroyed → Followed before

/-- `update` will not look at `hasNewData` again before it tests `isClosing`. -/
def MainPc.Past : MainPc → Prop
  | .flushing | .testing => True
  | _ => False

instance : DecidablePred MainPc.Past
  | .flushing | .testing => isTrue trivial
  | .idle | .clearing | .receiving | .destroyed => isFalse id

/-- Nothing waits for an `onRecv` behind the back of `update`. -/
def Clear (client : Client) : Prop := client.unseen = true → ¬ client.main.Past

instance (client : Client) : Decidable (Clear client) :=
  inferInstanceAs (Decidable (client.unseen = true → ¬ client.main.Past))

/-- The flags are raised in time: `isClosing` is set only while nothing waits behind the back of
`update`, nothing is appended behind the back of an `update` that finds it set, and `update` finds
`hasNewData` set on a closing client for which something waits. -/
def InTime (client : Client) : Action → Prop
  | .recv (.data _) => client.isClosing = true → ¬ client.main.Past
  | .recv .closed | .epollOut true | .epollRdhup => Clear client
  | .update failed =>
    (client.main = .idle ∧ client.hasNewData = false → client.isClosing = true → client.unseen = false) ∧
      (client.main = .flushing ∧ failed = true → client.unseen = false)
  | .recv .wouldBlock | .epollIn | .epollOut false | .notify => True

instance (client : Client) : DecidablePred (InTime client)
  | .recv (.data _) => inferInstanceAs (Decidable (client.isClosing = true → ¬ client.main.Past))
  | .recv .closed | .epollOut true | .epollRdhup => inferInstanceAs (Decidable (Clear client))
  | .update failed => inferInstanceAs (Decidable
    ((client.main = .idle ∧ client.hasNewData = false → client.isClosing = true → client.unseen = false) ∧
      (client.main = .flushing ∧ failed = true → client.unseen = false)))
  | .recv .wouldBlock | .epollIn | .epollOut false | .notify => isTrue trivial

/-- A client that is about to be destroyed has nothing waiting. -/
structure Inv (client : Client) (out : List (Option Event)) : Prop where
  clear : client.isClosing = true → Clear client
  seen : client.unseen = false → Followed out
  handedOver : HandedOver out

variable {out : List (Option Event)}

theorem Followed.concat (h : Followed out) {r : Option Event} (hr : ∀ buffer, r ≠ some (.appended buffer)) :
    Followed (out ++ [r]) := by
  intro k buffer hk
  rcases getElem?_concat hk with ⟨-, hold⟩ | ⟨-, hnew⟩
  · obtain ⟨j, hkj, hj⟩ := h k buffer hold
    have hjlt : j < out.length := (List.getElem?_eq_some_iff.mp hj).1
    exact ⟨j, hkj, (List.getElem?_append_left hjlt).trans hj⟩
  · exact absurd hnew.symm (hr buffer)

/-- An `onRecv` follows all that was appended. -/
theorem followed_onRecv (out : List (Option Event)) : Followed (out ++ [some .onRecv]) := by
  intro k buffer hk
  rcases getElem?_concat hk with ⟨hlt, -⟩ | ⟨-, hnew⟩
  · exact ⟨out.length, hlt, List.getElem?_concat_length⟩
  · cases hnew

/-- A step that appends nothing, and leaves what waits as it is. -/
theorem Inv.same {client client' : Client} (h : Inv client out) {r : Option Event}
    (hunseen : client'.unseen = client.unseen)
    (hclear : client'.isClosing = true → Clear client') (hr : r = none) : Inv client' (out ++ [r]) where
  clear := hclear
  seen hseen := (h.seen (hunseen ▸ hseen)).concat fun buffer hnew => by rw [hr] at hnew; cases hnew
  handedOver := Before.concat h.handedOver fun hnew => by rw [hr] at hnew; cases hnew

/-- What `writeClientBuffer` appends waits for an `onRecv`. -/
theorem append_inv {client client' : Client} {buffer : List UInt8} {r : Option Event} (h : Inv client out)
    (hok : client.isClosing = true → ¬ client.main.Past) (hstep : append client buffer = some (client', r)) :
    Inv client' (out ++ [r]) := by
  unfold append at hstep
  split at hstep <;> cases hstep
  constructor
  · intro hclosing _
    exact hok hclosing
  · intro hseen
    cases hseen
  · exact Before.concat h.handedOver fun hnew => by cases hnew

/-- **The socket thread.** -/
theorem socketStep_inv {client client' : Client} {a : Action} {r : Option Event} (h : Inv client out)
    (hok : InTime client a) (hstep : socketStep client a = some (client', r)) : Inv client' (out ++ [r]) := by
  cases a with
  | epollIn =>
    simp only [socketStep] at hstep
    split at hstep
    · split at hstep <;> cases hstep
      · exact h.same rfl h.clear rfl
      · exact h.same rfl h.clear rfl
    · cases hstep
  | recv result =>
    cases result with
    | data buffer =>
      cases hpc : client.socket <;> simp only [socketStep, hpc] at hstep
      · cases hstep
      · exact append_inv h hok hstep
      · exact append_inv h hok hstep
      · cases hstep
    | closed =>
      cases hpc : client.socket <;> simp only [socketStep, hpc] at hstep <;> cases hstep
      · exact h.same rfl (fun _ => hok) rfl
      · exact h.same rfl (fun _ => hok) rfl
    | wouldBlock =>
      cases hpc : client.socket <;> simp only [socketStep, hpc] at hstep <;> cases hstep
      · exact h.same rfl h.clear rfl
      · exact h.same rfl h.clear rfl
  | notify =>
    simp only [socketStep] at hstep
    split at hstep
    · cases hstep
      exact h.same rfl h.clear rfl
    · cases hstep
  | epollOut failed =>
    simp only [socketStep] at hstep
    split at hstep
    · cases hstep
      refine h.same rfl (fun hclosing => ?_) rfl
      cases failed with
      | true => exact hok
      | false =>
        rw [Bool.or_false] at hclosing
        exact h.clear hclosing
    · cases hstep
  | epollRdhup =>
    simp only [socketStep] at hstep
    split at hstep
    · cases hstep
      exact h.same rfl (fun _ => hok) rfl
    · cases hstep
  | update => cases hstep

/-- **The main thread.** -/
theorem updateStep_inv {client client' : Client} {failed : Bool} {r : Option Event} (h : Inv client out)
    (hok : InTime client (.update failed)) (hstep : updateStep client failed = some (client', r)) :
    Inv client' (out ++ [r]) := by
  cases hpc : client.main <;> simp only [updateStep, hpc] at hstep
  case idle =>
    cases hstep
    refine h.same rfl (fun hclosing hunseen => ?_) rfl
    cases hnew : client.hasNewData with
    | true => exact id
    | false =>
      -- `update` goes past the test, but then nothing waits
      have hseen : client.unseen = false := hok.1 ⟨hpc, hnew⟩ hclosing
      exact absurd (hunseen.symm.trans hseen) (by decide)
  case clearing =>
    cases hstep
    exact h.same rfl (fun _ _ => id) rfl
  case receiving =>
    cases hstep
    constructor
    · intro _ hunseen
      cases hunseen
    · intro _
      exact followed_onRecv out
    · exact Before.concat h.handedOver fun hnew => by cases hnew
  case flushing =>
    cases hstep
    refine h.same rfl (fun hclosing hunseen => ?_) rfl
    rcases Bool.or_eq_true_iff.mp hclosing with hbefore | hfailed
    · have hpast : ¬ client.main.Past := h.clear hbefore hunseen
      rw [hpc] at hpast
      exact absurd trivial hpast
    · have hseen : client.unseen = false := hok.2 ⟨hpc, hfailed⟩
      exact absurd (hunseen.symm.trans hseen) (by decide)
  case testing =>
    split at hstep <;> cases hstep
    · -- a closing client past the test of `hasNewData` has nothing waiting
      rename_i hclosing
      have hseen : client.unseen = false := by
        cases hunseen : client.unseen with
        | false => rfl
        | true =>
          have hpast : ¬ client.main.Past := h.clear hclosing hunseen
          rw [hpc] at hpast
          exact absurd trivial hpast
      constructor
      · intro _ _
        exact id
      · intro _
        exact (h.seen hseen).concat fun buffer hnew => by cases hnew
      · exact Before.concat h.handedOver fun _ => h.seen hseen
    · exact h.same rfl (fun _ _ => id) rfl
  case destroyed => cases hstep

theorem step_inv {client client' : Client} {a : Action} {r : Option Event} (h : Inv client out)
    (hok : InTime client a) (hstep : step client a = some (client', r)) : Inv client' (out ++ [r]) := by
  unfold step at hstep
  split at hstep
  · cases hstep
  · cases a with
    | update failed => exact updateStep_inv h hok hstep
    | epollIn => exact socketStep_inv h hok hstep
    | recv result => exact socketStep_inv h hok hstep
    | notify => exact socketStep_inv h hok hstep
    | epollOut failed => exact socketStep_inv h hok hstep
    | epollRdhup => exact socketStep_inv h hok hstep

theorem inv_new : Inv .new [] where
  clear hclosing := by cases hclosing
  seen _ := fun k buffer hk => by cases hk
  handedOver := before_nil _

/-- **What is received is handed over.**  When no flag is raised behind the back of an `update` that
will not look again, all that was appended to `readerBuffer` before the client is destroyed was
followed by an `onRecv`. -/
theorem received_before_destroyed (actions : List Action) {client : Client} {out : List (Option Event)}
    (hok : Along step InTime .new actions) (hrun : runOps step .new actions = some (client, out)) :
    HandedOver out :=
  have hinv : Inv client out :=
    runOps_trace (fun client _ out => Inv client out) (fun _ _ _ _ _ _ h hok hstep => step_inv h hok hstep)
      actions .new client [] [] out inv_new hok hrun
  hinv.handedOver

/-- The peer sends a byte and closes; `update` finds `hasNewData` set. -/
theorem received_before_destroyed_closed :
    ∃ client out, runOps step .new [.epollIn, .recv (.data [65]), .notify, .epollRdhup, .update false, .update false,
        .update false, .update false, .update false] = some (client, out) ∧
      some Event.destroyed ∈ out ∧ HandedOver out :=
  ⟨_, _, rfl, by decide, received_before_destroyed
    [.epollIn, .recv (.data [65]), .notify, .epollRdhup, .update false, .update false, .update false, .update false,
      .update false] (by decide) rfl⟩

/-- `update` finds no new data; then a byte arrives and the peer closes; then `update` finds the
client closing, and destroys it. -/
theorem destroyed_before_received :
    ¬ ∀ (actions : List Action) (client : Client) (out : List (Option Event)),
      runOps step .new actions = some (client, out) → HandedOver out := by
  intro hall
  have h := hall [.update false, .epollIn, .recv (.data [65]), .notify, .epollRdhup, .update false,
    .update false] _ _ rfl
  obtain ⟨j, hj, hout⟩ := h 6 _ rfl rfl 2 [65] rfl
  have hmem : some Event.onRecv ∈ _ := List.mem_of_getElem? hout
  exact absurd hmem (by decide)

end Libws.Network.Receive
