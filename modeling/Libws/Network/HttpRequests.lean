import Libws.Database.ExactlyOnce
import Libws.Lib.Trace
import Libws.Network.HttpQueue

/-!
# `HttpQueue` handles each request once, with its own response

* `erase` — without its clients, its responses and its destructor, the queue is a `DBQueue` whose workers are marked
  all at once; what `DBQueue` does with its requests is done here;
* `ownResponse` — what the response of an object should be after a trace;
* `handled_once`, `own_response` — every run;
* `destructor_leaves` — what is done, and what is not, when the destructor has returned.
-/

set_option autoImplicit false

namespace Libws.Network.Requests

open Libws.Database (Holder Callback)
open Libws.Machine Libws.Trace

namespace HttpQueue

/-! ## The queue as a `DBQueue` -/

def erasePc : WorkerPc → Database.WorkerPc
  | .test | .finished => .test
  | .get => .get
  | .popped request => .popped request
  | .got r => .got r
  | .calling r => .calling r
  | .called r => .called r
  | .exited => .exited

def eraseWorker (isExit : Bool) (w : Worker) : Database.WorkerThread := ⟨isExit, erasePc w.pc⟩

/-- What is left of `tmpQueue` in each running `update`. -/
def tmpQueues : MainPc → List (List Nat)
  | .updating _ tmpQueue outer => tmpQueue :: outer.map Prod.snd
  | _ => []

/-- The innermost `update` is in an `onFinish`. -/
def finishing : MainPc → Bool
  | .updating request _ _ => request.isSome
  | _ => false

/-- The queue without its clients, responses and destructor, and as if it had been constructed with a length. -/
def erase (q : HttpQueue) (workQueueLength : Nat) : Database.DBQueue :=
  { workMtx := q.workMtx, workQueue := q.workQueue, workQueueLength := workQueueLength, finishQueue := q.finishQueue
    workerThreads := q.workerThreads.map (eraseWorker q.isExit), tmpQueues := tmpQueues q.main
    finishing := finishing q.main, numThread := none, added := q.added }

/-- The callback of an event. -/
def callback : Event → Option Callback
  | .onRequest _ r => some (.onRequest r)
  | .onRequestReturn _ r => some (.onRequestReturn r)
  | .onFinish r _ => some (.onFinish r)
  | _ => none

/-- The callbacks of a run. -/
def callbacks (out : List (Option Event)) : List Callback := (out.filterMap id).filterMap callback

theorem callbacks_concat (out : List (Option Event)) (e : Option Event) :
    callbacks (out ++ [e]) = callbacks out ++ callbacks [e] := by
  rw [callbacks, List.filterMap_append, List.filterMap_append]
  rfl

/-- A worker that moves on, and what it does to the queues. -/
theorem erase_move (q : HttpQueue) (n : Nat) (i : Nat) (w w' : Worker) (workMtx : Option Holder)
    (workQueue : List (Option Nat)) (workQueueLength n' : Nat) (finishQueue : List Nat) :
    ({ q.setWorker i w' with
        workMtx := workMtx, workQueue := workQueue, workQueueLength := workQueueLength
        finishQueue := finishQueue } : HttpQueue).erase n' =
      { (q.erase n).setPc i (eraseWorker q.isExit w) (erasePc w'.pc) with
        workMtx := workMtx, workQueue := workQueue, workQueueLength := n', finishQueue := finishQueue } := by
  simp only [erase, setWorker, List.map_set]
  rfl

/-- A client that is changed is no change to a `DBQueue`. -/
theorem erase_client {q : HttpQueue} {i : Nat} {w : Worker} (w' : Worker) (hw : q.workerThreads[i]? = some w)
    (hpc : erasePc w'.pc = erasePc w.pc) (n : Nat) : (q.setWorker i w').erase n = q.erase n := by
  have herase : (q.workerThreads.map (eraseWorker q.isExit))[i]? = some (eraseWorker q.isExit w') := by
    rw [List.getElem?_map, hw, eraseWorker, hpc]
    rfl
  obtain ⟨hlt, hget⟩ := List.getElem?_eq_some_iff.mp herase
  simp only [erase, setWorker, List.map_set]
  rw [← hget, List.set_getElem_self]

/-- A worker steps as one of a `DBQueue` does, or nothing happens that a `DBQueue` knows of. -/
theorem erase_workerStep {object : Nat → Nat} {q q' : HttpQueue} {i : Nat} {w : Worker} {e : Option Event}
    (hw : q.workerThreads[i]? = some w) (hstep : q.workerStep object i w = some (q', e)) (n : Nat) :
    (∃ n', (q.erase n).workerStep i (eraseWorker q.isExit w) = some (q'.erase n', callbacks [e])) ∨
      q'.erase n = q.erase n ∧ callbacks [e] = [] := by
  have hmove := erase_move q n i w
  have hout : ∀ {d d' : Database.DBQueue} (calls : List Callback), d' = d → some (d, calls) = some (d', calls) :=
    fun _ h => by rw [h]
  obtain ⟨pc, response⟩ := w
  cases pc with
  | test =>
    cases hstep
    refine Or.inl ⟨n, hout [] ((hmove _ _ _ _ _ _).trans ?_)⟩
    cases hexit : q.isExit <;> rfl
  | get =>
    simp only [workerStep] at hstep
    simp only [eraseWorker, erasePc, Database.DBQueue.workerStep]
    cases hfree : q.workMtx with
    | some holder =>
      rw [hfree] at hstep
      cases hstep
    | none =>
      rw [hfree] at hstep
      cases hqueue : q.workQueue with
      | nil =>
        rw [hqueue] at hstep
        cases hstep
        left
        simp only [erase, hfree, hqueue]
        exact ⟨n, hout [] ((hmove _ _ _ _ _ _).trans (by simp only [erase, hfree, hqueue]; rfl))⟩
      | cons request rest =>
        rw [hqueue] at hstep
        cases hstep
        left
        simp only [erase, hfree, hqueue]
        exact ⟨n, hout [] ((hmove _ _ _ q.workQueueLength _ _).trans (by simp only [erase, hfree, hqueue]; rfl))⟩
  | popped request =>
    cases hstep
    refine Or.inl ⟨q.workQueue.length, hout [] ((hmove _ _ _ _ _ _).trans ?_)⟩
    cases request <;> rfl
  | got r =>
    cases hstep
    exact Or.inl ⟨n, hout [.onRequest r] (hmove _ _ _ _ _ _)⟩
  | calling r =>
    cases hstep
    exact Or.inl ⟨n, hout [.onRequestReturn r] (hmove _ _ _ _ _ _)⟩
  | called r =>
    cases hstep
    exact Or.inl ⟨n, hout [] (hmove _ _ _ _ _ _)⟩
  | finished =>
    cases hstep
    exact Or.inr ⟨erase_client ⟨.test, none⟩ hw rfl n, rfl⟩
  | exited => cases hstep

/-! ## Every step -/

/-- Whose `response` the client of each worker writes to, and what was written to that of the object `o`. -/
def listen (object : Nat → Nat) (o : Nat) : (Nat → Option Nat) × List UInt8 →
    Event → (Nat → Option Nat) × List UInt8
  | (target, data), .onRequest i r => (Function.update target i (some (object r)), data)
  | (target, data), .writeCallback i more => (target, if target i = some o then data ++ more else data)
  | (target, data), .reset i | (target, data), .onRequestReturn i _ => (Function.update target i none, data)
  | (target, data), .onFinish .. | (target, data), .aborted _ => (target, data)

def listened (object : Nat → Nat) (o : Nat) (out : List (Option Event)) : (Nat → Option Nat) × List UInt8 :=
  (out.filterMap id).foldl (listen object o) (fun _ => none, [])

/-- **The own response** of an object: the data of `writeCallback` in each `onRequest` of it, up to the first
`reset` there. -/
def ownResponse (object : Nat → Nat) (o : Nat) (out : List (Option Event)) : List UInt8 := (listened object o out).2

theorem listened_concat_none (object : Nat → Nat) (o : Nat) (out : List (Option Event)) :
    listened object o (out ++ [none]) = listened object o out := by
  rw [listened, List.filterMap_append]
  exact congrArg (List.foldl (listen object o) (fun _ => none, [])) (List.append_nil _)

theorem listened_concat (object : Nat → Nat) (o : Nat) (out : List (Option Event)) (e : Event) :
    listened object o (out ++ [some e]) = listen object o (listened object o out) e := by
  rw [listened, List.filterMap_append, List.foldl_append]
  rfl

theorem erase_hands (q : HttpQueue) (n : Nat) (f : Database.WorkerPc → Option Nat) :
    (q.erase n).hands f = q.workerThreads.filterMap fun w => f (erasePc w.pc) := by
  simp only [Database.DBQueue.hands, erase, List.filterMap_map]
  rfl

section Queue

variable {object : Nat → Nat} {q q' : HttpQueue} {n : Nat} {calls : List Callback} {e : Option Event}

/-- Nothing that a `DBQueue` knows of. -/
theorem queue_same (h : Database.DBQueue.Inv (q.erase n) calls) (hsame : q'.erase n = q.erase n)
    (he : callbacks [e] = []) : ∃ n', Database.DBQueue.Inv (q'.erase n') (calls ++ callbacks [e]) := by
  rw [he, List.append_nil]
  exact ⟨n, hsame ▸ h⟩

/-- Workers with empty hands come, or all of them are marked. -/
theorem queue_workers (h : Database.DBQueue.Inv (q.erase n) calls) (he : callbacks [e] = [])
    (hworkers : ∀ f : Database.WorkerPc → Option Nat, f .test = none → (q'.erase n).hands f = (q.erase n).hands f)
    (hrest : q'.added = q.added ∧ tmpQueues q'.main = tmpQueues q.main ∧ q'.finishQueue = q.finishQueue ∧
      q'.workQueue = q.workQueue ∧ q'.workMtx = q.workMtx) :
    ∃ n', Database.DBQueue.Inv (q'.erase n') (calls ++ callbacks [e]) := by
  obtain ⟨hadded, htmp, hfinish, hwork, hmtx⟩ := hrest
  rw [he]
  refine ⟨n, h.same hadded (congrArg List.flatten htmp) hfinish (congrArg (List.filterMap id) hwork)
    (hworkers _ rfl) (hworkers _ rfl) (hworkers _ rfl) fun hfree => ?_⟩
  have hlength := h.length (hmtx.symm.trans hfree)
  exact hlength.trans (congrArg List.length hwork.symm)

theorem update_queue (h : Database.DBQueue.Inv (q.erase n) calls) (hstep : q.step object .update = some (q', e)) :
    ∃ n', Database.DBQueue.Inv (q'.erase n') (calls ++ callbacks [e]) := by
  refine ⟨n, Database.DBQueue.step_inv h .update ?_⟩
  simp only [step] at hstep
  split at hstep
  · rename_i hidle
    cases hstep
    simp only [Database.DBQueue.step, erase, hidle]
    rfl
  · rename_i r tmpQueue outer hupdating
    cases hstep
    simp only [Database.DBQueue.step, erase, hupdating]
    rfl
  · cases hstep

theorem updateNext_queue (h : Database.DBQueue.Inv (q.erase n) calls)
    (hstep : q.step object .updateNext = some (q', e)) :
    ∃ n', Database.DBQueue.Inv (q'.erase n') (calls ++ callbacks [e]) := by
  refine ⟨n, Database.DBQueue.step_inv h .updateNext ?_⟩
  simp only [step] at hstep
  split at hstep
  · rename_i hdone
    cases hstep
    simp only [Database.DBQueue.step, erase, hdone]
    rfl
  · rename_i r tmpQueue outer hdone
    cases hstep
    simp only [Database.DBQueue.step, erase, hdone]
    rfl
  · rename_i r rest outer hbatch
    cases hstep
    simp only [Database.DBQueue.step, erase, hbatch]
    rfl
  · cases hstep

theorem join_queue (h : Database.DBQueue.Inv (q.erase n) calls) (hstep : q.step object .join = some (q', e)) :
    ∃ n', Database.DBQueue.Inv (q'.erase n') (calls ++ callbacks [e]) := by
  simp only [step] at hstep
  split at hstep
  · rename_i i hjoin
    have hmain : tmpQueues q.main = [] ∧ finishing q.main = false := by
      rw [hjoin]
      exact ⟨rfl, rfl⟩
    split at hstep
    · cases hstep
      exact queue_same h (by simp only [erase, hmain.1, hmain.2]; rfl) rfl
    split at hstep
    · cases hstep
      exact queue_same h (by simp only [erase, hmain.1, hmain.2]; rfl) rfl
    · cases hstep
  · cases hstep

theorem step_queue (h : Database.DBQueue.Inv (q.erase n) calls) (action : Action)
    (hstep : q.step object action = some (q', e)) :
    ∃ n', Database.DBQueue.Inv (q'.erase n') (calls ++ callbacks [e]) := by
  cases action with
  | addQueueMsg isNull =>
    simp only [step] at hstep
    split at hstep
    · cases hstep
    rename_i hfree
    refine ⟨n, Database.DBQueue.step_inv h (.addRequest isNull) ?_⟩
    cases isNull <;> cases hstep <;> simp only [Database.DBQueue.step, erase, hfree] <;> rfl
  | addQueueMsgEnd =>
    simp only [step] at hstep
    split at hstep
    · rename_i hadder
      cases hstep
      refine ⟨q.workQueue.length, Database.DBQueue.step_inv h .addRequestEnd ?_⟩
      simp only [Database.DBQueue.step, erase, hadder]
      rfl
    · cases hstep
  | worker i =>
    obtain ⟨w, hw, hworker⟩ := Option.bind_eq_some_iff.mp hstep
    have herase : (q.erase n).workerThreads[i]? = some (eraseWorker q.isExit w) := by
      simp only [erase, List.getElem?_map, hw, Option.map_some]
    rcases erase_workerStep hw hworker n with ⟨n', hdb⟩ | ⟨hsame, he⟩
    · exact ⟨n', Database.DBQueue.workerStep_inv h herase hdb⟩
    · exact queue_same h hsame he
  | writeCallback i data =>
    obtain ⟨w, hw, hwrite⟩ := Option.bind_eq_some_iff.mp hstep
    simp only [writeCallback] at hwrite
    split at hwrite
    · cases hwrite
      exact queue_same h rfl rfl
    · split at hwrite
      · cases hwrite
      · cases hwrite
        exact queue_same h rfl rfl
    · cases hwrite
  | reset i =>
    obtain ⟨w, hw, hreset⟩ := Option.bind_eq_some_iff.mp hstep
    simp only [reset] at hreset
    split at hreset
    · cases hreset
      exact queue_same h (erase_client { w with response := none } hw rfl n) rfl
    · cases hreset
  | init =>
    simp only [step] at hstep
    split at hstep
    · cases hstep
      refine queue_workers h rfl (fun f hf => ?_) ⟨rfl, rfl, rfl, rfl, rfl⟩
      simp [erase_hands, List.filterMap_append, erasePc, hf]
    · cases hstep
  | update => exact update_queue h hstep
  | updateNext => exact updateNext_queue h hstep
  | destroy =>
    simp only [step] at hstep
    split at hstep
    · rename_i hidle
      cases hstep
      refine queue_workers h ?_ (fun f _ => ?_) ⟨rfl, (congrArg tmpQueues hidle).symm, rfl, rfl, rfl⟩
      · split <;> rfl
      · rw [erase_hands, erase_hands]
    · cases hstep
  | join => exact join_queue h hstep

end Queue

/-- The workers after a step of one. -/
theorem getElem?_setWorker {q : HttpQueue} {i : Nat} {w : Worker} (hw : q.workerThreads[i]? = some w) (w' : Worker)
    (j : Nat) (v : Worker) :
    (q.setWorker i w').workerThreads[j]? = some v ↔ j = i ∧ v = w' ∨ j ≠ i ∧ q.workerThreads[j]? = some v := by
  have hlt : i < q.workerThreads.length := (List.getElem?_eq_some_iff.mp hw).1
  rw [setWorker, List.getElem?_set]
  by_cases hj : i = j
  · subst hj
    simp [hlt, eq_comm]
  · simp [hj, Ne.symm hj]

/-- Whose `response` the client of a worker in `onRequest` writes to. -/
def Worker.target (w : Worker) : Option Nat := w.pc.inRequest.bind fun _ => w.response

def target (q : HttpQueue) (i : Nat) : Option Nat := q.workerThreads[i]?.bind Worker.target

theorem target_setWorker {q : HttpQueue} {i : Nat} {w : Worker} (hw : q.workerThreads[i]? = some w) (w' : Worker) :
    (q.setWorker i w').target = Function.update q.target i (Worker.target w') := by
  have hlt : i < q.workerThreads.length := (List.getElem?_eq_some_iff.mp hw).1
  funext j
  rw [target, setWorker, List.getElem?_set]
  by_cases hj : i = j
  · subst hj
    rw [if_pos rfl, if_pos hlt, Function.update_self]
    rfl
  · rw [if_neg hj, Function.update_of_ne (Ne.symm hj)]
    rfl

theorem target_of_getElem? {q : HttpQueue} {i : Nat} {w : Worker} (hw : q.workerThreads[i]? = some w) :
    q.target i = Worker.target w := by
  rw [target, hw]
  rfl

/-- The clients and the responses after the events `out`. -/
structure Clients (object : Nat → Nat) (q : HttpQueue) (out : List (Option Event)) : Prop where
  responses : ∀ o, q.responses o = ownResponse object o out
  target : ∀ o, (listened object o out).1 = q.target
  finish : Before (fun e before => ∀ r response, e = some (.onFinish r response) →
    response = ownResponse object (object r) before) out

section Clients

variable {object : Nat → Nat} {q q' : HttpQueue} {out : List (Option Event)} {e : Option Event}
  {i : Nat} {w : Worker}

/-- A step that is not of a worker in `onRequest`. -/
theorem Clients.keep (h : Clients object q out) (he : ∀ o, listened object o (out ++ [e]) = listened object o out)
    (hresponses : q'.responses = q.responses) (htarget : q'.target = q.target)
    (hfinish : ∀ r response, e = some (.onFinish r response) → response = ownResponse object (object r) out) :
    Clients object q' (out ++ [e]) := by
  refine ⟨fun o => ?_, fun o => ?_, h.finish.concat hfinish⟩
  · rw [hresponses, ownResponse, he]
    exact h.responses o
  · rw [he, htarget]
    exact h.target o

/-- A worker moves on outside `onRequest`. -/
theorem Clients.move (h : Clients object q out) (hw : q.workerThreads[i]? = some w) (hpc : w.pc.inRequest = none)
    (w' : Worker) (hpc' : w'.pc.inRequest = none) (hresponses : q'.responses = q.responses)
    (hworkers : q'.workerThreads = (q.setWorker i w').workerThreads) : Clients object q' (out ++ [none]) := by
  refine h.keep (fun o => listened_concat_none object o out) hresponses ?_ fun _ _ he => by cases he
  have htarget : q'.target = (q.setWorker i w').target := by
    funext j
    rw [HttpQueue.target, HttpQueue.target, hworkers]
  have hsame : Worker.target w' = q.target i := by
    rw [target_of_getElem? hw, Worker.target, Worker.target, hpc, hpc']
    rfl
  rw [htarget, target_setWorker hw, hsame, Function.update_eq_self]

/-- A worker calls `onRequest`, the client is reset, or `onRequest` returns. -/
theorem Clients.aim (h : Clients object q out) (hw : q.workerThreads[i]? = some w) (w' : Worker) {e : Event}
    (hlisten : ∀ o target data, listen object o (target, data) e =
    (Function.update target i (Worker.target w'), data))
    (hfinish : ∀ r response, e ≠ .onFinish r response) : Clients object (q.setWorker i w') (out ++ [some e]) := by
  refine ⟨fun o => ?_, fun o => ?_, h.finish.concat fun r response he => absurd (Option.some.inj he)
    (hfinish r response)⟩
  · rw [ownResponse, listened_concat, hlisten]
    exact h.responses o
  · rw [listened_concat, hlisten, target_setWorker hw, h.target]

/-- The client of a worker in `onRequest` writes. -/
theorem Clients.write (h : Clients object q out) (hw : q.workerThreads[i]? = some w) (data : List UInt8)
    (hstep : q.writeCallback object i w data = some (q', e)) : Clients object q' (out ++ [e]) := by
  have hlisten : ∀ o, listened object o (out ++ [some (.writeCallback i data)]) =
      (q.target, if Worker.target w = some o then ownResponse object o out ++
        data else ownResponse object o out) := by
    intro o
    rw [listened_concat, ← h.target o, ← target_of_getElem? hw, ← h.target o]
    rfl
  simp only [writeCallback] at hstep
  split at hstep
  · -- the client was reset
    rename_i hpc hnone
    cases hstep
    have hsilent : Worker.target w = none := by rw [Worker.target, hpc, hnone]; rfl
    refine ⟨fun o => ?_, fun o => ?_, h.finish.concat fun _ _ he => by cases he⟩
    · rw [ownResponse, hlisten, hsilent, if_neg (Option.some_ne_none o).symm]
      exact h.responses o
    · rw [hlisten]
  · rename_i o hpc hresponse
    split at hstep
    · cases hstep
    cases hstep
    have hown : Worker.target w = some o := by rw [Worker.target, hpc, hresponse]; rfl
    refine ⟨fun o' => ?_, fun o' => ?_, h.finish.concat fun _ _ he => by cases he⟩
    · rw [ownResponse, hlisten, hown]
      by_cases ho : o' = o
      · subst ho
        rw [if_pos rfl]
        exact (Function.update_self ..).trans (congrArg (· ++ data) (h.responses o'))
      · rw [if_neg fun heq => ho (Option.some.inj heq).symm]
        exact (Function.update_of_ne ho ..).trans (h.responses o')
    · rw [hlisten]
      rfl
  · cases hstep

/-- A step of a worker. -/
theorem workerStep_clients (h : Clients object q out) (hw : q.workerThreads[i]? = some w)
    (hstep : q.workerStep object i w = some (q', e)) : Clients object q' (out ++ [e]) := by
  simp only [workerStep] at hstep
  split at hstep
  · rename_i hpc
    cases hstep
    refine h.move hw (by rw [hpc]; rfl) _ ?_ rfl rfl
    dsimp only
    split <;> rfl
  · rename_i hpc
    split at hstep
    · cases hstep
    split at hstep
    · cases hstep
      exact h.move hw (by rw [hpc]; rfl) { w with pc := .test } rfl rfl rfl
    · cases hstep
      exact h.move hw (by rw [hpc]; rfl) { w with pc := .popped _ } rfl rfl rfl
  · rename_i request hpc
    cases hstep
    refine h.move hw (by rw [hpc]; rfl) _ ?_ rfl rfl
    cases request <;> rfl
  · cases hstep
    exact h.aim hw _ (fun _ _ _ => rfl) fun _ _ he => by cases he
  · cases hstep
    exact h.aim hw _ (fun _ _ _ => rfl) fun _ _ he => by cases he
  · rename_i r hpc
    cases hstep
    exact h.move hw (by rw [hpc]; rfl) { w with pc := .finished } rfl rfl rfl
  · rename_i hpc
    cases hstep
    exact h.move hw (by rw [hpc]; rfl) ⟨.test, none⟩ rfl rfl rfl
  · cases hstep

/-- A new worker is not in `onRequest`. -/
theorem target_concat (q : HttpQueue) :
    ({ q with workerThreads := q.workerThreads ++ [⟨.test, none⟩] } : HttpQueue).target = q.target := by
  funext i
  rw [HttpQueue.target, HttpQueue.target]
  rcases Nat.lt_trichotomy i q.workerThreads.length with hlt | rfl | hgt
  · rw [List.getElem?_append_left hlt]
  · rw [List.getElem?_concat_length, List.getElem?_eq_none (Nat.le_refl _)]
    rfl
  · rw [List.getElem?_eq_none (Nat.le_of_lt hgt), List.getElem?_eq_none]
    rw [List.length_append]
    exact hgt

/-- A step that leaves the clients, and writes nothing. -/
theorem Clients.silent (h : Clients object q out) (hresponses : q'.responses = q.responses)
    (htarget : q'.target = q.target) : Clients object q' (out ++ [none]) :=
  h.keep (fun o => listened_concat_none object o out) hresponses htarget fun _ _ he => by cases he

theorem reset_clients (h : Clients object q out) (hw : q.workerThreads[i]? = some w)
    (hreset : q.reset i w = some (q', e)) : Clients object q' (out ++ [e]) := by
  simp only [reset] at hreset
  split at hreset
  · rename_i r hpc
    cases hreset
    refine h.aim hw _ (fun _ _ _ => ?_) fun _ _ he => by cases he
    rw [listen, Worker.target, hpc]
    rfl
  · cases hreset

/-- `onFinish` is given the response that its request object then has. -/
theorem updateNext_clients (h : Clients object q out) (hstep : q.step object .updateNext = some (q', e)) :
    Clients object q' (out ++ [e]) := by
  simp only [step] at hstep
  split at hstep
  · cases hstep
    exact h.silent rfl rfl
  · cases hstep
    exact h.silent rfl rfl
  · rename_i r rest outer hbatch
    cases hstep
    refine h.keep (fun o => listened_concat object o out _) rfl rfl fun r' response he => ?_
    cases he
    exact h.responses (object r)
  · cases hstep

theorem destroy_clients (h : Clients object q out) (hstep : q.step object .destroy = some (q', e)) :
    Clients object q' (out ++ [e]) := by
  simp only [step] at hstep
  split at hstep
  · cases hstep
    split
    · exact h.keep (fun o => listened_concat object o out _) rfl rfl fun _ _ he => by cases he
    · exact h.silent rfl rfl
  · cases hstep

theorem join_clients (h : Clients object q out) (hstep : q.step object .join = some (q', e)) :
    Clients object q' (out ++ [e]) := by
  simp only [step] at hstep
  split at hstep
  · split at hstep
    · cases hstep
      exact h.silent rfl rfl
    split at hstep
    · cases hstep
      exact h.silent rfl rfl
    · cases hstep
  · cases hstep

theorem step_clients (h : Clients object q out) (action : Action) (hstep : q.step object action = some (q', e)) :
    Clients object q' (out ++ [e]) := by
  cases action with
  | worker i =>
    obtain ⟨w, hw, hworker⟩ := Option.bind_eq_some_iff.mp hstep
    exact workerStep_clients h hw hworker
  | writeCallback i data =>
    obtain ⟨w, hw, hwrite⟩ := Option.bind_eq_some_iff.mp hstep
    exact h.write hw data hwrite
  | reset i =>
    obtain ⟨w, hw, hreset⟩ := Option.bind_eq_some_iff.mp hstep
    exact reset_clients h hw hreset
  | updateNext => exact updateNext_clients h hstep
  | destroy => exact destroy_clients h hstep
  | join => exact join_clients h hstep
  | addQueueMsg isNull =>
    simp only [step] at hstep
    split at hstep
    · cases hstep
    split at hstep <;> cases hstep <;> exact h.silent rfl rfl
  | addQueueMsgEnd =>
    simp only [step] at hstep
    split at hstep
    · cases hstep
      exact h.silent rfl rfl
    · cases hstep
  | init =>
    simp only [step] at hstep
    split at hstep
    · cases hstep
      exact h.silent rfl (target_concat q)
    · cases hstep
  | update =>
    simp only [step] at hstep
    split at hstep
    · cases hstep
      exact h.silent rfl rfl
    · cases hstep
      exact h.silent rfl rfl
    · cases hstep

end Clients

/-! ## The destructor -/

/-- The destructor has joined a worker. -/
def MainPc.joined (j : Nat) : MainPc → Prop
  | .joining i => j < i
  | .returned => True
  | _ => False

/-- What the destructor has joined is out of `HttpWorkThread`. -/
def Exited (q : HttpQueue) : Prop :=
  ∀ (j : Nat) w, MainPc.joined j q.main → q.workerThreads[j]? = some w → w.pc = .exited

/-- What a step can do to the workers, and to what the destructor has joined. -/
inductive WorkersStep (q q' : HttpQueue) : Prop where
  | same (hworkers : q'.workerThreads = q.workerThreads) (hmain : ∀ j, MainPc.joined j q'.main →
    MainPc.joined j q.main)
  | moved (i : Nat) (w w' : Worker) (hw : q.workerThreads[i]? = some w) (hrunning : w.pc ≠ .exited)
      (hworkers : q'.workerThreads = (q.setWorker i w').workerThreads) (hmain : q'.main = q.main)
  | init (hmain : q'.main = .idle)
  | joined (hworkers : q'.workerThreads = q.workerThreads)
      (hjoined : ∀ (j : Nat) w, MainPc.joined j q'.main → q.workerThreads[j]? = some w →
        MainPc.joined j q.main ∨ w.pc = .exited)

section Destructor

variable {object : Nat → Nat} {q q' : HttpQueue} {e : Option Event}

theorem workerStep_workers {i : Nat} {w : Worker} (hw : q.workerThreads[i]? = some w)
    (hstep : q.workerStep object i w = some (q', e)) : WorkersStep q q' := by
  simp only [workerStep] at hstep
  split at hstep
  case h_2 hpc =>
    split at hstep
    · cases hstep
    split at hstep <;> cases hstep <;> exact .moved i w _ hw (by simp [hpc]) rfl rfl
  case h_8 => cases hstep
  all_goals
    rename_i hpc
    cases hstep
    exact .moved i w _ hw (by simp [hpc]) rfl rfl

/-- The destructor goes on when the thread that it joins has ended, and returns when there is none left. -/
theorem join_workers (hstep : q.step object .join = some (q', e)) : WorkersStep q q' := by
  simp only [step] at hstep
  split at hstep
  · rename_i i hjoin
    split at hstep
    · rename_i hnone
      cases hstep
      refine .joined rfl fun j w _ hw => Or.inl ?_
      rw [hjoin]
      exact Nat.lt_of_lt_of_le (List.getElem?_eq_some_iff.mp hw).1 (List.getElem?_eq_none_iff.mp hnone)
    rename_i w hw
    split at hstep
    · rename_i hexited
      cases hstep
      refine .joined rfl fun j v hj hv => ?_
      rw [hjoin]
      rcases Nat.lt_succ_iff_lt_or_eq.mp hj with hlt | rfl
      · exact Or.inl hlt
      · cases hw.symm.trans hv
        exact Or.inr hexited
    · cases hstep
  · cases hstep

theorem writeCallback_workers {i : Nat} {w : Worker} {data : List UInt8}
    (hwrite : q.writeCallback object i w data = some (q', e)) : WorkersStep q q' := by
  simp only [writeCallback] at hwrite
  split at hwrite
  · cases hwrite
    exact .same rfl fun _ => id
  · split at hwrite
    · cases hwrite
    · cases hwrite
      exact .same rfl fun _ => id
  · cases hwrite

theorem step_workers (action : Action) (hstep : q.step object action = some (q', e)) : WorkersStep q q' := by
  cases action with
  | worker i =>
    obtain ⟨w, hw, hworker⟩ := Option.bind_eq_some_iff.mp hstep
    exact workerStep_workers hw hworker
  | reset i =>
    obtain ⟨w, hw, hreset⟩ := Option.bind_eq_some_iff.mp hstep
    simp only [reset] at hreset
    split at hreset
    · rename_i hpc
      cases hreset
      exact .moved i w _ hw (by simp [hpc]) rfl rfl
    · cases hreset
  | writeCallback i data =>
    obtain ⟨w, -, hwrite⟩ := Option.bind_eq_some_iff.mp hstep
    exact writeCallback_workers hwrite
  | init =>
    simp only [step] at hstep
    split at hstep
    · rename_i hidle
      cases hstep
      exact .init hidle
    · cases hstep
  | destroy =>
    simp only [step] at hstep
    split at hstep
    · cases hstep
      exact .same rfl fun j hj => absurd hj (Nat.not_lt_zero j)
    · cases hstep
  | join => exact join_workers hstep
  | addQueueMsg isNull =>
    simp only [step] at hstep
    split at hstep
    · cases hstep
    split at hstep <;> cases hstep <;> exact .same rfl fun _ => id
  | addQueueMsgEnd =>
    simp only [step] at hstep
    split at hstep
    · cases hstep
      exact .same rfl fun _ => id
    · cases hstep
  | update =>
    simp only [step] at hstep
    split at hstep
    · cases hstep
      exact .same rfl fun _ => False.elim
    · cases hstep
      exact .same rfl fun _ => False.elim
    · cases hstep
  | updateNext =>
    simp only [step] at hstep
    split at hstep
    · cases hstep
      exact .same rfl fun _ => False.elim
    · cases hstep
      exact .same rfl fun _ => False.elim
    · cases hstep
      exact .same rfl fun _ => False.elim
    · cases hstep

theorem step_exited (h : Exited q) (hstep : WorkersStep q q') : Exited q' := by
  intro j v hj hv
  cases hstep with
  | same hworkers hmain =>
    rw [hworkers] at hv
    exact h j v (hmain j hj) hv
  | moved i w w' hw hrunning hworkers hmain =>
    rw [hmain] at hj
    rw [hworkers] at hv
    rcases (getElem?_setWorker hw w' j v).mp hv with ⟨rfl, -⟩ | ⟨-, hold⟩
    · exact absurd (h j w hj hw) hrunning
    · exact h j v hj hold
  | init hmain =>
    rw [hmain] at hj
    exact hj.elim
  | joined hworkers hjoined =>
    rw [hworkers] at hv
    rcases hjoined j v hj hv with hold | hexited
    · exact h j v hold hv
    · exact hexited

end Destructor

/-! ## Every run -/

/-- What holds after the events `out`. -/
structure Inv (object : Nat → Nat) (q : HttpQueue) (out : List (Option Event)) : Prop where
  queue : ∃ n, Database.DBQueue.Inv (q.erase n) (callbacks out)
  clients : Clients object q out
  exited : Exited q

theorem new_inv (object : Nat → Nat) (isExit : Bool) (workQueueLength : Nat) :
    Inv object (new isExit workQueueLength) [] :=
  ⟨⟨0, Database.DBQueue.new_inv⟩, ⟨fun _ => rfl, fun _ => rfl, before_nil _⟩, fun _ _ hj => hj.elim⟩

section Runs

variable {object : Nat → Nat} {isExit : Bool} {workQueueLength : Nat} {q q' : HttpQueue} {out : List (Option Event)}

theorem step_inv {action : Action} {e : Option Event} (h : Inv object q out)
    (hstep : q.step object action = some (q', e)) : Inv object q' (out ++ [e]) := by
  obtain ⟨⟨n, hqueue⟩, hclients, hexited⟩ := h
  refine ⟨?_, step_clients hclients action hstep, step_exited hexited (step_workers action hstep)⟩
  rw [callbacks_concat]
  exact step_queue hqueue action hstep

theorem run_inv {actions : List Action} (hrun : runOps (step object)
    (new isExit workQueueLength) actions = some (q, out)) : Inv object q out :=
  runOps_inv (fun q _ out => Inv object q out) (fun _ _ _ _ _ _ h hstep => step_inv h hstep)
    (new_inv object isExit workQueueLength) hrun

end Runs

/-- All places of a request, from the last to the first. -/
def places (q : HttpQueue) (out : List (Option Event)) : List Nat := (q.erase 0).places (callbacks out)

/-- **Each request is handled once.**  Whatever the members hold that the constructor leaves, and in every order
of the steps, an `update` that an `onFinish` calls included: a request that was added is in one place;
`onRequest` and `onFinish` are called at most once on it, and `onRequest` has returned before `onFinish` is
called. -/
theorem handled_once (object : Nat → Nat) (isExit : Bool) (workQueueLength : Nat)
    (actions : List Action) (q : HttpQueue)
    (out : List (Option Event)) (hrun : runOps (step object) (new isExit workQueueLength) actions = some (q, out)) :
    (q.places out).Perm (List.range q.added) ∧
      ∀ r, (callbacks out).count (.onRequest r) ≤ 1 ∧ (callbacks out).count (.onFinish r) ≤ 1 ∧
        Database.Precedes (.onRequest r) (.onRequestReturn r) (callbacks out) ∧
        Database.Precedes (.onRequestReturn r) (.onFinish r) (callbacks out) := by
  obtain ⟨n, hqueue⟩ := (run_inv hrun).queue
  refine ⟨hqueue.places_perm, fun r => ?_⟩
  exact ⟨hqueue.onRequest_le r, hqueue.onFinish_le r, hqueue.requestFirst r, hqueue.finishLast r⟩

/-- **The response is the own one.**  When `onFinish` is called, the response of the object is what was written
in the calls of its own `onRequest`, in order, before any `reset` there; whatever the other workers do
meanwhile. -/
theorem own_response (object : Nat → Nat) (isExit : Bool) (workQueueLength : Nat)
    (actions : List Action) (q : HttpQueue)
    (out : List (Option Event)) (hrun : runOps (step object) (new isExit workQueueLength) actions = some (q, out)) :
    Before (fun e before => ∀ r response, e = some (.onFinish r response) →
      response = ownResponse object (object r) before) out :=
  (run_inv hrun).clients.finish

/-- **What the destructor leaves.**  When it has returned no request is half done: each one was finished, or lies in
`finishQueue` with its `onRequest` returned and never gets its `onFinish`, or lies in `workQueue` untouched. -/
theorem destructor_leaves (object : Nat → Nat) (isExit : Bool) (workQueueLength : Nat)
    (actions : List Action) (q : HttpQueue)
    (out : List (Option Event)) (hrun : runOps (step object) (new isExit workQueueLength) actions = some (q, out))
    (hreturned : q.main = .returned) :
    (Database.DBQueue.finished (callbacks out) ++ q.finishQueue ++
      q.workQueue.filterMap id).Perm (List.range q.added) ∧
      ∀ r, (callbacks out).count (.onRequestReturn r) = (callbacks out).count (.onRequest r) ∧
        (callbacks out).count (.onRequest r) =
          (Database.DBQueue.finished (callbacks out) ++ q.finishQueue).count r := by
  obtain ⟨⟨n, hqueue⟩, -, hexited⟩ := run_inv hrun
  have hhands : ∀ f : Database.WorkerPc → Option Nat, f .exited = none → (q.erase n).hands f = [] := by
    intro f hf
    rw [erase_hands]
    refine List.filterMap_eq_nil_iff.mpr fun w hw => ?_
    obtain ⟨j, hj⟩ := List.getElem?_of_mem hw
    rw [hexited j w (by rw [hreturned]; trivial) hj]
    exact hf
  have hbatch : (q.erase n).batch = [] := by
    simp only [Database.DBQueue.batch, erase, hreturned]
    rfl
  refine ⟨?_, fun r => ?_⟩
  · have hplaces := hqueue.places_perm
    rw [Database.DBQueue.places, hbatch, hhands _ rfl, List.append_nil, List.append_nil] at hplaces
    exact hplaces
  · have hrequest := hqueue.onRequest r
    have hreturn := hqueue.onRequestReturn r
    rw [hhands _ rfl, hbatch, List.count_nil] at hrequest hreturn
    rw [List.count_append]
    exact ⟨hreturn.trans hrequest.symm, hrequest⟩

/-- One request is finished; the next one resets its client, and a third one is still queued when the destructor
runs. -/
def threeRequests : List Action :=
  [.init, .addQueueMsg false, .addQueueMsgEnd, .addQueueMsg false, .addQueueMsgEnd, .worker 0, .worker 0, .worker 0,
    .worker 0, .writeCallback 0 [1], .writeCallback 0 [2], .worker 0, .worker 0, .worker 0, .update, .updateNext,
    .updateNext, .worker 0, .worker 0, .worker 0, .worker 0, .writeCallback 0 [3], .reset 0, .writeCallback 0 [4],
    .addQueueMsg false, .addQueueMsgEnd, .destroy, .worker 0, .worker 0, .worker 0, .worker 0, .join, .join]

theorem threeRequests_defined : (runOps (step id) (new false 7) threeRequests).isSome := by decide +kernel

theorem handled_once_three : ∃ q out, runOps (step id) (new false 7) threeRequests = some (q, out) ∧
    (q.places out).Perm (List.range q.added) :=
  have hrun := (Option.some_get threeRequests_defined).symm
  ⟨_, _, hrun, (handled_once id false 7 threeRequests _ _ hrun).1⟩

theorem destructor_leaves_three : ∃ q out, runOps (step id) (new false 7) threeRequests = some (q, out) ∧
    q.finishQueue = [1] ∧ q.workQueue = [some 2] ∧ q.responses 1 = [3] ∧
    (Database.DBQueue.finished (callbacks out) ++ q.finishQueue ++
      q.workQueue.filterMap id).Perm (List.range q.added) :=
  have hrun := (Option.some_get threeRequests_defined).symm
  ⟨_, _, hrun, by decide +kernel, by decide +kernel, by decide +kernel,
    (destructor_leaves id false 7 threeRequests _ _ hrun (by decide +kernel)).1⟩

/-- The same object is added again when it is finished; its `response` grows. -/
def addedAgain : List Action :=
  [.init, .addQueueMsg false, .addQueueMsgEnd, .worker 0, .worker 0, .worker 0, .worker 0, .writeCallback 0 [1], .worker 0,
    .worker 0, .worker 0, .update, .updateNext, .addQueueMsg false, .addQueueMsgEnd, .updateNext, .worker 0, .worker 0,
    .worker 0, .worker 0, .writeCallback 0 [2], .worker 0, .worker 0, .update, .updateNext, .updateNext]

theorem addedAgain_defined : (runOps (step fun _ => 0) (new false 0) addedAgain).isSome := by decide +kernel

theorem own_response_again : ∃ q out, runOps (step fun _ => 0) (new false 0) addedAgain = some (q, out) ∧
    some (.onFinish 0 [1]) ∈ out ∧ some (.onFinish 1 [1, 2]) ∈ out ∧
    Before (fun e before => ∀ r response, e = some (.onFinish r response) →
      response = ownResponse (fun _ => 0) 0 before) out :=
  have hrun := (Option.some_get addedAgain_defined).symm
  ⟨_, _, hrun, by decide +kernel, by decide +kernel, own_response (fun _ => 0) false 0 addedAgain _ _ hrun⟩

end HttpQueue

end Libws.Network.Requests
