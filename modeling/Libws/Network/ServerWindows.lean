import Libws.Core.ObjectPool

/-!
# The completion port of the Windows server

Model of `processEventThread`, `startListen`, `cleanup`, `createOverlappedData`, `releaseOverlappedData`,
`initOverlappedData`, `postAcceptEx`, `postCloseServer`, `writeClientBuffer`, `kickClient` and `destroyClient`,
and of what `flushClient` does with its `OverlappedData`, of the Windows part of
`wsNetwork/src/ServerSocket.cpp`.

* An `OverlappedData` is named by the number in which it was made, a socket by the number of its `WSASocketW`, which
  succeeds, and a client by the number of its `addClient`.
* `pending` is what the system works on; what it completes, in which thread and in which order, comes with the step.
  A call that fails at once is never completed, and what is posted with `PostQueuedCompletionStatus` does not fail.
* A step is one access that more than one thread can see; what runs under `ioDataPoolMtx` is one step.  Which
  clients `update` kicks, flushes and destroys comes with the run.
* A completion key is a plain pointer.  The key of the listening socket is null, and to write through it has no
  defined outcome.  A client stays in `clients` when it is destroyed.
-/

set_option autoImplicit false

namespace Libws.Network.Windows

open Libws.Core

def NUM_ACCEPTEX : Nat := 100

inductive SocketOperation where
  | ACCEPT | RECEIVE | SEND | CLOSE_SERVER
  deriving DecidableEq, Repr

structure OverlappedData where
  /-- history: the number in which it was made -/
  id : Nat
  operationType : SocketOperation
  acceptSocket : Option Nat
  /-- what the system has written into the buffer -/
  buffer : List UInt8
  deriving DecidableEq, Repr

/-- What was posted, and its completion key. -/
structure Operation where
  operationType : SocketOperation
  ioData : Nat
  client : Option Nat
  deriving DecidableEq, Repr

/-- What `GetQueuedCompletionStatus` tells of an operation. -/
inductive Completion where
  | failed (aborted : Bool)
  | transferred (bytes : List UInt8)
  deriving DecidableEq, Repr

/-- What a thread does when an `OverlappedData` is released. -/
inductive After where
  | waiting | postAcceptEx | exit
  deriving DecidableEq, Repr

/-- Where a thread is in `processEventThread`. -/
inductive ThreadPc where
  /-- in `GetQueuedCompletionStatus` -/
  | waiting
  /-- before `client->isClosing = true` -/
  | closing (ioData client : Nat)
  /-- before `numClients < config.maxConnection` -/
  | accepted (ioData : Nat)
  /-- before `addClient` -/
  | adding (ioData : Nat)
  /-- before `if (client->isClosing)` -/
  | checking (ioData client : Nat)
  /-- before `writeClientBuffer` -/
  | writing (ioData client : Nat)
  /-- before `initOverlappedData` and `WSARecv` -/
  | receiving (ioData client : Nat) (accepting : Bool)
  /-- before `closesocket(ioData->acceptSocket)` -/
  | refusing (ioData : Nat)
  /-- before `releaseOverlappedData` -/
  | releasing (ioData : Nat) (after : After)
  /-- before `postAcceptEx` -/
  | posting
  /-- in `postAcceptEx`, before `lpfnAcceptEx` -/
  | acceptEx (ioData : Nat)
  | exited
  deriving DecidableEq, Repr

def After.pc : After → ThreadPc
  | .waiting => .waiting
  | .postAcceptEx => .posting
  | .exit => .exited

/-- Where the main thread is. -/
inductive MainPc where
  | idle
  /-- in `startListen`, before the `postAcceptEx` of the number `i` -/
  | listening (i : Nat)
  /-- in it, before `lpfnAcceptEx` -/
  | acceptEx (ioData i : Nat)
  /-- in `flushClient`, before `WSASend` -/
  | sending (ioData client : Nat)
  /-- in `cleanup`, before the `postCloseServer` of the number `i` -/
  | stopping (i : Nat)
  /-- in it, before `PostQueuedCompletionStatus` -/
  | closing (ioData i : Nat)
  /-- before the `join` of the threads -/
  | joining
  deriving DecidableEq, Repr

structure Client where
  /-- history: the number of its `addClient` -/
  id : Nat
  socket : Option Nat
  isClosing : Bool
  destroyed : Bool
  deriving DecidableEq, Repr

structure Server where
  ioDataPool : ObjectPool OverlappedData
  ioDataPosted : List OverlappedData
  pending : List Operation
  eventThreads : List ThreadPc
  main : MainPc
  /-- those in `addingClients` and `allClients`, and those destroyed -/
  clients : List Client
  /-- history: the objects made, the sockets opened and the clients added so far -/
  made : Nat
  sockets : Nat
  added : Nat
  /-- history: the objects whose operation failed at once -/
  lost : List Nat
  deriving DecidableEq, Repr

inductive Event where
  | opened (socket : Nat)
  | closed (socket : Nat)
  | addClient (client : Nat)
  /-- a thread is told that `WSARecv` has these bytes -/
  | received (client : Nat) (bytes : List UInt8)
  | writeClientBuffer (client : Nat) (bytes : List UInt8)
  | destroyClient (client : Nat)
  deriving DecidableEq, Repr

/-- A constructed server. -/
def Server.new : Server :=
  { ioDataPool := .new 2000 ((List.range 200).map fun id => ⟨id, .ACCEPT, none, []⟩)
    ioDataPosted := [], pending := [], eventThreads := [], main := .idle, clients := []
    made := 200, sockets := 0, added := 0, lost := [] }

namespace Server

variable (server : Server)

def setThread (i : Nat) (pc : ThreadPc) : Server := { server with eventThreads := server.eventThreads.set i pc }

def findPosted (ioData : Nat) : Option OverlappedData := server.ioDataPosted.find? fun data => data.id == ioData

def findClient (client : Nat) : Option Client := server.clients.find? fun other => other.id == client

/-- `client->isClosing = true`. -/
def close (client : Nat) : Server :=
  { server with
      clients := server.clients.map fun other =>
        if other.id = client then { other with isClosing := true } else other }

def destroy (client : Nat) : Server :=
  { server with
      clients := server.clients.map fun other =>
        if other.id = client then { other with destroyed := true } else other }

/-- What the system writes before it completes an operation. -/
def fill (operation : Operation) : Completion → Server
  | .transferred bytes =>
    if operation.operationType = .RECEIVE then
      { server with
          ioDataPosted := server.ioDataPosted.map fun other =>
            if other.id = operation.ioData then { other with buffer := bytes } else other }
    else server
  | .failed _ => server

def createOverlappedData (operation : SocketOperation) (acceptedSock : Option Nat) : Server × Nat :=
  let (ioDataPool, ioData, isNew) := server.ioDataPool.alloc ⟨server.made, .ACCEPT, none, []⟩
  ({ server with
      ioDataPool := ioDataPool
      ioDataPosted := server.ioDataPosted ++ [⟨ioData.id, operation, acceptedSock, []⟩]
      made := if isNew then server.made + 1 else server.made }, ioData.id)

/-- `releaseOverlappedData`: what does not fit in the pool is destroyed, and closes its socket. -/
def releaseOverlappedData (data : Nat) : Server × List Event :=
  match server.findPosted data with
  | none => (server, [])
  | some ioData =>
    let (ioDataPool, left) := server.ioDataPool.free ioData
    ({ server with
        ioDataPool := ioDataPool
        ioDataPosted := server.ioDataPosted.eraseP fun other => other.id == data },
      (left.bind OverlappedData.acceptSocket).toList.map .closed)

def initOverlappedData (data : Nat) (operation : SocketOperation) : Server :=
  { server with
    ioDataPosted := server.ioDataPosted.map fun other =>
      if other.id = data then ⟨data, operation, none, []⟩ else other }

/-- `WSARecv`, `WSASend` and `lpfnAcceptEx`; one that is not accepted is never completed. -/
def post (operation : SocketOperation) (ioData : Nat) (client : Option Nat) (ok : Bool) : Server :=
  if ok then { server with pending := server.pending ++ [⟨operation, ioData, client⟩] }
  else { server with lost := server.lost ++ [ioData] }

/-- `postAcceptEx`, up to `lpfnAcceptEx`. -/
def openAccept : Server × Nat :=
  ({ server with sockets := server.sockets + 1 } : Server).createOverlappedData .ACCEPT (some server.sockets)

end Server

inductive Action where
  | startListen (hardware_concurrency : Nat)
  /-- the thread `i` gets the operation at the place `k` -/
  | dequeue (i k : Nat) (completion : Completion)
  /-- the next step of the thread `i`, where `ok` is what it asks for -/
  | thread (i : Nat) (ok : Bool)
  /-- the next step of the main thread -/
  | main (ok : Bool)
  /-- `flushClient`: one turn of its loop -/
  | flushClient (client : Nat)
  | kickClient (client : Nat)
  | destroyClient (client : Nat)
  | cleanup
  deriving DecidableEq, Repr

/-- What a thread learns from the completion of a `WSARecv`. -/
def Operation.told (operation : Operation) : Completion → List Event
  | .transferred bytes =>
    if operation.operationType = .RECEIVE then operation.client.toList.map fun client =>
      .received client bytes else []
  | .failed _ => []

/-- A completion is told apart. -/
def dispatch (data : OverlappedData) (client : Option Nat) : Completion → Option ThreadPc
  | .failed true => some (.releasing data.id .waiting)
  | .failed false => client.map (.closing data.id)
  | .transferred bytes =>
    match data.operationType with
    | .ACCEPT => some (.accepted data.id)
    | .RECEIVE => if bytes = [] then client.map (.closing data.id) else client.map (.checking data.id)
    | .SEND => if bytes = [] then client.map (.closing data.id) else some (.releasing data.id .waiting)
    | .CLOSE_SERVER => some (.releasing data.id .exit)

def threadStep (server : Server) (i : Nat) (ok : Bool) : ThreadPc → Option (Server × List Event)
  | .closing ioData client => some ((server.close client).setThread i (.releasing ioData .waiting), [])
  | .accepted ioData =>
    -- `numClients < config.maxConnection`
    some (server.setThread i (if ok then .adding ioData else .refusing ioData), [])
  | .adding ioData =>
    match server.findPosted ioData with
    | none => none
    | some data =>
      some ({ server.setThread i (.receiving ioData server.added true) with
          clients := server.clients ++ [⟨server.added, data.acceptSocket, false, false⟩]
          added := server.added + 1 }, [.addClient server.added])
  | .checking ioData client =>
    match server.findClient client with
    | none => none
    | some found =>
      some (server.setThread i (if found.isClosing then .releasing ioData .waiting else .writing ioData client), [])
  | .writing ioData client =>
    match server.findPosted ioData with
    | none => none
    | some data =>
      some (server.setThread i (.receiving ioData client false), [.writeClientBuffer client data.buffer])
  | .receiving ioData client accepting =>
    some (((server.initOverlappedData ioData .RECEIVE).post .RECEIVE ioData (some client) ok).setThread i
      (if accepting then .posting else .waiting), [])
  | .refusing ioData =>
    match server.findPosted ioData with
    | none => none
    | some data =>
      some (server.setThread i (.releasing ioData .postAcceptEx), data.acceptSocket.toList.map .closed)
  | .releasing ioData after =>
    let (server, events) := server.releaseOverlappedData ioData
    some (server.setThread i after.pc, events)
  | .posting =>
    let (created, ioData) := server.openAccept
    some (created.setThread i (.acceptEx ioData), [.opened server.sockets])
  | .acceptEx ioData => some ((server.post .ACCEPT ioData none ok).setThread i .waiting, [])
  | .waiting | .exited => none

def mainStep (server : Server) (ok : Bool) : Option (Server × List Event) :=
  match server.main with
  | .listening i =>
    if i < NUM_ACCEPTEX then
      let (created, ioData) := server.openAccept
      some ({ created with main := .acceptEx ioData i }, [.opened server.sockets])
    else some ({ server with main := .idle }, [])
  | .acceptEx ioData i => some ({ server.post .ACCEPT ioData none ok with main := .listening (i + 1) }, [])
  | .sending ioData client => some ({ server.post .SEND ioData (some client) ok with main := .idle }, [])
  | .stopping i =>
    if i < server.eventThreads.length then
      let (created, ioData) := server.createOverlappedData .CLOSE_SERVER none
      some ({ created with main := .closing ioData i }, [])
    else some ({ server with main := .joining }, [])
  | .closing ioData i => some ({ server.post .CLOSE_SERVER ioData none true with main := .stopping (i + 1) }, [])
  | .joining =>
    if ∀ pc ∈ server.eventThreads, pc = .exited then some ({ server with eventThreads := [], main := .idle }, [])
    else none
  | .idle => none

def step (server : Server) : Action → Option (Server × List Event)
  | .startListen hardware_concurrency =>
    let numThreads := if hardware_concurrency = 0 then 1 else hardware_concurrency
    if server.main = .idle ∧ server.eventThreads = [] then
      some ({ server with eventThreads := List.replicate numThreads .waiting, main := .listening 0 }, [])
    else none
  | .dequeue i k completion =>
    match server.eventThreads[i]?, server.pending[k]? with
    | some .waiting, some operation =>
      if operation.operationType = .CLOSE_SERVER ∧ completion ≠ .transferred [] then none
      else
        match server.findPosted operation.ioData with
        | none => none
        | some data =>
          (dispatch data operation.client completion).map fun pc =>
            ({ (server.fill operation completion).setThread i pc with pending := server.pending.eraseIdx k },
              operation.told completion)
    | _, _ => none
  | .thread i ok => server.eventThreads[i]?.bind (threadStep server i ok)
  | .main ok => mainStep server ok
  | .flushClient client =>
    match server.main, server.findClient client with
    | .idle, some found =>
      if found.destroyed then none
      else
        let (created, ioData) := server.createOverlappedData .SEND none
        some ({ created with main := .sending ioData client }, [])
    | _, _ => none
  | .kickClient client =>
    match server.main, server.findClient client with
    | .idle, some found => if found.destroyed then none else some (server.close client, [])
    | _, _ => none
  | .destroyClient client =>
    match server.main, server.findClient client with
    | .idle, some found =>
      -- `update` and `cleanup` destroy those that are closing
      if found.destroyed ∨ !found.isClosing then none
      else some (server.destroy client, found.socket.toList.map .closed ++ [.destroyClient client])
    | _, _ => none
  | .cleanup => if server.main = .idle then some ({ server with main := .stopping 0 }, []) else none

end Libws.Network.Windows
