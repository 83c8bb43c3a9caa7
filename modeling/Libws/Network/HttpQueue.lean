import Libws.Database.DBQueue
import Mathlib.Logic.Function.Basic

/-!
# `ws::network::HttpQueue`

Model of `HttpQueue`, and of `writeCallback` and `reset` of `HttpClient`, of `include/ws/network/HttpClient.h` and
`wsNetwork/src/HttpClient.cpp`, as a machine of atomic steps: the callers of `addQueueMsg`, the worker threads and
the main thread, in `init`, `update` or the destructor, move in any order.

* A request is named by the number of the `addQueueMsg` call that brought it; `none` is the null pointer.
  `object r` is the `HttpRequest` that this call was given: one object may be added again and again, and keeps
  its `response`.
* In `onRequest` a request may have its client call `writeCallback`, and may reset it.  To write to a `response`
  while another thread is in a callback of the same object has no defined outcome.
* The constructor sets neither `isExit` nor `workQueueLength`: a new queue has what the memory holds.
* An `onFinish` may call `update`, which is then nested in the one that is running.
* The critical sections are taken apart as in `DBQueue`.
-/

set_option autoImplicit false

namespace Libws.Network.Requests

open Libws.Database (Holder)

/-- Where a worker stands in `HttpWorkThread`. -/
inductive WorkerPc where
  /-- at `while (!isExit)` -/
  | test
  /-- at `getRequest()` -/
  | get
  /-- in `getRequest()`, under `workMtx`: `request` popped, `workQueueLength` not yet set -/
  | popped (request : Option Nat)
  /-- `request` got -/
  | got (request : Nat)
  /-- in `request->onRequest(client)` -/
  | calling (request : Nat)
  /-- `onRequest` returned, `request` not yet pushed to `finishQueue` -/
  | called (request : Nat)
  /-- before `client.reset()` -/
  | finished
  | exited
  deriving DecidableEq, Repr

/-- A worker thread, with its `HttpClient`. -/
structure Worker where
  pc : WorkerPc
  /-- the object whose `response` the client points to -/
  response : Option Nat
  deriving DecidableEq, Repr

/-- The request whose `onRequest` is running. -/
def WorkerPc.inRequest : WorkerPc → Option Nat
  | .calling request => some request
  | _ => none

/-- Where the main thread is. -/
inductive MainPc where
  | idle
  /-- in `update`, and in the `onFinish` of a request; around it are the calls that this one is nested in -/
  | updating (request : Option Nat) (tmpQueue : List Nat) (outer : List (Nat × List Nat))
  /-- in the destructor, before `join()` of the worker `i` -/
  | joining (i : Nat)
  /-- the destructor has returned -/
  | returned
  deriving DecidableEq, Repr

/-- The requests whose `onFinish` is running. -/
def MainPc.inFinish : MainPc → List Nat
  | .updating request _ outer => request.toList ++ outer.map Prod.fst
  | _ => []

structure HttpQueue where
  workMtx : Option Holder
  workQueue : List (Option Nat)
  workQueueLength : Nat
  finishQueue : List Nat
  isExit : Bool
  workerThreads : List Worker
  main : MainPc
  added : Nat
  /-- the member `response` of each object -/
  responses : Nat → List UInt8

inductive Event where
  | onRequest (worker request : Nat)
  /-- `writeCallback` of the client of the worker -/
  | writeCallback (worker : Nat) (data : List UInt8)
  /-- `reset` of the client of the worker, in `onRequest` -/
  | reset (worker : Nat)
  | onRequestReturn (worker request : Nat)
  | onFinish (request : Nat) (response : List UInt8)
  /-- the warning of the destructor -/
  | aborted (workQueueLength : Nat)
  deriving DecidableEq, Repr

inductive Action where
  /-- `addQueueMsg`: lock and `push_back` -/
  | addQueueMsg (isNull : Bool)
  /-- `addQueueMsg`: `workQueueLength = workQueue.size()` and unlock -/
  | addQueueMsgEnd
  /-- the next step of the worker -/
  | worker (i : Nat)
  /-- the worker, in `onRequest` -/
  | writeCallback (i : Nat) (data : List UInt8)
  | reset (i : Nat)
  /-- `init`: one turn of the loop -/
  | init
  /-- `update`: the swap under `finishMtx` -/
  | update
  /-- `update`: the next `onFinish`, or the return -/
  | updateNext
  /-- `~HttpQueue`, up to `isExit = true` -/
  | destroy
  /-- the next `join` of the destructor, or its return -/
  | join
  deriving DecidableEq, Repr

namespace HttpQueue

/-- The constructor; `isExit` and `workQueueLength` are not initialized. -/
def new (isExit : Bool) (workQueueLength : Nat) : HttpQueue :=
  { workMtx := none, workQueue := [], workQueueLength := workQueueLength, finishQueue := [], isExit := isExit,
    workerThreads := [], main := .idle, added := 0, responses := fun _ => [] }

def setWorker (q : HttpQueue) (i : Nat) (w : Worker) : HttpQueue :=
  { q with workerThreads := q.workerThreads.set i w }

variable (object : Nat → Nat)

/-- How many callbacks of an object are running. -/
def callbacksOf (q : HttpQueue) (o : Nat) : Nat :=
  q.workerThreads.countP (fun w => w.pc.inRequest.map object == some o) +
    q.main.inFinish.countP (fun r => object r == o)

/-- `HttpWorkThread`, the next step of the worker `w` at the index `i`. -/
def workerStep (q : HttpQueue) (i : Nat) (w : Worker) : Option (HttpQueue × Option Event) :=
  match w.pc with
  | .test => some (q.setWorker i { w with pc := if q.isExit then .exited else .get }, none)
  | .get =>
    if q.workMtx.isSome then none else
    match q.workQueue with
    | [] => some (q.setWorker i { w with pc := .test }, none)
    | request :: rest =>
      some ({ q.setWorker i { w with pc := .popped request } with workMtx := some (.worker i), workQueue := rest }, none)
  | .popped request =>
    let pc := match request with
      | none => .test
      | some r => .got r
    some ({ q.setWorker i { w with pc := pc } with workQueueLength := q.workQueue.length, workMtx := none }, none)
  | .got r => some (q.setWorker i { w with pc := .calling r, response := some (object r) }, some (.onRequest i r))
  | .calling r => some (q.setWorker i { w with pc := .called r }, some (.onRequestReturn i r))
  | .called r => some ({ q.setWorker i { w with pc := .finished } with finishQueue := q.finishQueue ++ [r] }, none)
  | .finished => some (q.setWorker i { w with pc := .test, response := none }, none)
  | .exited => none

/-- `writeCallback`, in the `onRequest` that the worker `w` is in. -/
def writeCallback (q : HttpQueue) (i : Nat) (w : Worker) (data : List UInt8) : Option (HttpQueue × Option Event) :=
  match w.pc, w.response with
  | .calling _, none => some (q, some (.writeCallback i data))
  | .calling _, some o =>
    if q.callbacksOf object o > 1 then none
    else
      some ({ q with responses := Function.update q.responses o (q.responses o ++ data) }, some (.writeCallback i data))
  | _, _ => none

def reset (q : HttpQueue) (i : Nat) (w : Worker) : Option (HttpQueue × Option Event) :=
  match w.pc with
  | .calling _ => some (q.setWorker i { w with response := none }, some (.reset i))
  | _ => none

def step (q : HttpQueue) : Action → Option (HttpQueue × Option Event)
  | .addQueueMsg isNull =>
    if q.workMtx.isSome then none
    else if isNull then some ({ q with workMtx := some .adder, workQueue := q.workQueue ++ [none] }, none)
    else
      some ({ q with workMtx := some .adder, workQueue := q.workQueue ++ [some q.added], added := q.added + 1 }, none)
  | .addQueueMsgEnd =>
    if q.workMtx = some .adder then some ({ q with workQueueLength := q.workQueue.length, workMtx := none }, none)
    else none
  | .worker i => q.workerThreads[i]?.bind (q.workerStep object i)
  | .writeCallback i data => q.workerThreads[i]?.bind fun w => q.writeCallback object i w data
  | .reset i => q.workerThreads[i]?.bind (q.reset i)
  | .init =>
    if q.main = .idle then some ({ q with workerThreads := q.workerThreads ++ [⟨.test, none⟩] }, none) else none
  | .update =>
    match q.main with
    | .idle => some ({ q with main := .updating none q.finishQueue [], finishQueue := [] }, none)
    | .updating (some r) tmpQueue outer =>
      some ({ q with main := .updating none q.finishQueue ((r, tmpQueue) :: outer), finishQueue := [] }, none)
    | _ => none
  | .updateNext =>
    match q.main with
    | .updating _ [] [] => some ({ q with main := .idle }, none)
    | .updating _ [] ((r, tmpQueue) :: outer) => some ({ q with main := .updating (some r) tmpQueue outer }, none)
    | .updating _ (r :: rest) outer =>
      some ({ q with main := .updating (some r) rest outer }, some (.onFinish r (q.responses (object r))))
    | _ => none
  | .destroy =>
    if q.main = .idle then
      some ({ q with isExit := true, main := .joining 0 },
        if q.workQueueLength > 0 then some (.aborted q.workQueueLength) else none)
    else none
  | .join =>
    match q.main with
    | .joining i =>
      match q.workerThreads[i]? with
      | none => some ({ q with main := .returned }, none)
      | some w => if w.pc = .exited then some ({ q with main := .joining (i + 1) }, none) else none
    | _ => none

end HttpQueue

end Libws.Network.Requests
