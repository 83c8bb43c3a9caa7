import Libws.Lib.Machine

/-!
# `ws::database::DBQueue`

Model of `DBQueue` of `include/ws/database/Database.h` and `wsDatabase/src/Database.cpp` as a
machine of atomic steps: the callers of `addRequest`, the worker threads, the running `update` and
the running `setThread` move in any order.

* A request is named by the number of the `addRequest` call that brought it, so `added` counts the
  calls so far; `none` is the null pointer.
* A critical section of `workMtx` is two steps, between which the mutex is held; one of `finishMtx`
  is a single operation on `finishQueue`, and one step.
* A worker that is asleep, or still trying to log on to the database, takes no step.
* `update` and `setThread` belong to the main thread.  An `onFinish` that `update` calls may call `update`
  itself: the running ones are nested, each with its own `tmpQueue`, and the innermost one goes on.
* The result of a step is the list of callbacks that begin or return in it.
-/

set_option autoImplicit false

namespace Libws.Database

inductive Callback where
  | onRequest (request : Nat)
  | onRequestReturn (request : Nat)
  | onFinish (request : Nat)
  deriving DecidableEq, Repr

/-- Where a worker stands in `DBWorkThread`. -/
inductive WorkerPc where
  /-- at `while (!worker.isExit)` -/
  | test
  /-- at `getRequest()` -/
  | get
  /-- in `getRequest()`, under `workMtx`: `request` popped, `workQueueLength` not yet set -/
  | popped (request : Option Nat)
  /-- `request` got, the database not yet known to be connected -/
  | got (request : Nat)
  /-- in `request->onRequest(db)` -/
  | calling (request : Nat)
  /-- `onRequest` returned, `request` not yet pushed to `finishQueue` -/
  | called (request : Nat)
  | exited
  deriving DecidableEq, Repr

structure WorkerThread where
  isExit : Bool
  pc : WorkerPc
  deriving DecidableEq, Repr

inductive Holder where
  | adder
  | worker (i : Nat)
  deriving DecidableEq, Repr

structure DBQueue where
  workMtx : Option Holder
  workQueue : List (Option Nat)
  workQueueLength : Nat
  finishQueue : List Nat
  workerThreads : List WorkerThread
  /-- what is left of `tmpQueue` in each running `update`, the innermost one first -/
  tmpQueues : List (List Nat)
  /-- the innermost one is in an `onFinish` -/
  finishing : Bool
  /-- the argument of a running `setThread` -/
  numThread : Option Nat
  added : Nat
  deriving DecidableEq, Repr

inductive Action where
  /-- `addRequest`: lock and `push_back` -/
  | addRequest (isNull : Bool)
  /-- `addRequest`: `workQueueLength = workQueue.size()` and unlock -/
  | addRequestEnd
  /-- the next step of the worker `i` -/
  | worker (i : Nat)
  /-- `update`, by the main thread or an `onFinish`: the swap under `finishMtx` -/
  | update
  /-- the innermost `update`: the next `onFinish`, or the return -/
  | updateNext
  | setThread (numThread : Nat)
  /-- `setThread`: the next step of its loop, or the return -/
  | setThreadNext
  deriving DecidableEq, Repr

namespace DBQueue

/-- The constructor. -/
def new : DBQueue :=
  { workMtx := none, workQueue := [], workQueueLength := 0, finishQueue := [], workerThreads := [],
    tmpQueues := [], finishing := false, numThread := none, added := 0 }

def setPc (q : DBQueue) (i : Nat) (w : WorkerThread) (pc : WorkerPc) : DBQueue :=
  { q with workerThreads := q.workerThreads.set i { w with pc := pc } }

/-- `DBWorkThread`, the next step of the worker `w` at the index `i`. -/
def workerStep (q : DBQueue) (i : Nat) (w : WorkerThread) : Option (DBQueue × List Callback) :=
  match w.pc with
  | .test => some (q.setPc i w (if w.isExit then .exited else .get), [])
  | .get =>
    if q.workMtx.isSome then none else
    match q.workQueue with
    | [] => some (q.setPc i w .test, [])
    | request :: rest =>
      some ({ q.setPc i w (.popped request) with workMtx := some (.worker i), workQueue := rest }, [])
  | .popped request =>
    let pc := match request with
      | none => .test
      | some r => .got r
    some ({ q.setPc i w pc with workQueueLength := q.workQueue.length, workMtx := none }, [])
  | .got r => some (q.setPc i w (.calling r), [.onRequest r])
  | .calling r => some (q.setPc i w (.called r), [.onRequestReturn r])
  | .called r => some ({ q.setPc i w .test with finishQueue := q.finishQueue ++ [r] }, [])
  | .exited => none

/-- `setThread`, the next step towards `numThread` workers: a new worker, the mark on the last one,
    or its removal once it can be joined. -/
def setThreadStep (q : DBQueue) (numThread : Nat) : Option (DBQueue × List Callback) :=
  if q.workerThreads.length < numThread then
    some ({ q with workerThreads := q.workerThreads ++ [⟨false, .test⟩] }, [])
  else if q.workerThreads.length > numThread then
    match q.workerThreads.getLast? with
    | none => none
    | some w =>
      if ¬ w.isExit then
        some ({ q with workerThreads := q.workerThreads.dropLast ++ [{ w with isExit := true }] }, [])
      else if w.pc = .exited then some ({ q with workerThreads := q.workerThreads.dropLast }, [])
      else none
  else some ({ q with numThread := none }, [])

def step (q : DBQueue) : Action → Option (DBQueue × List Callback)
  | .addRequest isNull =>
    if q.workMtx.isSome then none
    else if isNull then
      some ({ q with workMtx := some .adder, workQueue := q.workQueue ++ [none] }, [])
    else
      some ({ q with workMtx := some .adder, workQueue := q.workQueue ++ [some q.added],
                     added := q.added + 1 }, [])
  | .addRequestEnd =>
    if q.workMtx = some .adder then
      some ({ q with workQueueLength := q.workQueue.length, workMtx := none }, [])
    else none
  | .worker i =>
    match q.workerThreads[i]? with
    | none => none
    | some w => q.workerStep i w
  | .update =>
    if q.tmpQueues = [] ∨ q.finishing then
      some ({ q with tmpQueues := q.finishQueue :: q.tmpQueues, finishing := false, finishQueue := [] }, [])
    else none
  | .updateNext =>
    match q.tmpQueues with
    | [] => none
    -- an outer `update` is still in the `onFinish` that called this one
    | [] :: outer => some ({ q with tmpQueues := outer, finishing := !outer.isEmpty }, [])
    | (r :: rest) :: outer => some ({ q with tmpQueues := rest :: outer, finishing := true }, [.onFinish r])
  | .setThread numThread =>
    match q.numThread with
    | none => some ({ q with numThread := some numThread }, [])
    | some _ => none
  | .setThreadNext =>
    match q.numThread with
    | none => none
    | some numThread => q.setThreadStep numThread

end DBQueue

end Libws.Database
