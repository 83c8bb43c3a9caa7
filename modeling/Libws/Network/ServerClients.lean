import Libws.Network.ServerAccept

/-!
# The life of a client on the Linux server

Model of `init`, `startListen`, `update`, `cleanup`, `kickClient` and `getClient`, of the accept branch of
`processEventThread` and of `addClient`, of `wsNetwork/src/ServerSocket.cpp`, with all clients of the server and
all that it calls back.

* A connection is named by its number among those that `accept4` returned; the number stands for the client that is
  made for it, and for its socket.
* A step is one access that both threads can see; the section under `addMtx` takes a step for each client, and
  `addingClients` loses the clients that it has dealt with.
* What other parts of the program do to a client, `isClosing` and `hasNewData`, is an action of its own.
* The order in which `unordered_map` is gone through comes with the step that begins to.
-/

set_option autoImplicit false

namespace Libws.Network.Clients

structure ServerConfig where
  maxConnection : UInt16
  kickTime : UInt64
  deriving DecidableEq, Repr

structure Client where
  /-- history: the number of the connection -/
  conn : Nat
  id : UInt16
  lastActiveTime : UInt64
  isClosing : Bool
  hasNewData : Bool
  deriving DecidableEq, Repr

/-- Where the socket thread is. -/
inductive SocketPc where
  /-- it does not run -/
  | exited
  /-- before `accept4` -/
  | waiting
  /-- the limit is tested; before `createClient` -/
  | accepted (conn : Nat)
  /-- in `addClient`, before the lock of `addMtx` -/
  | created (client : Client)
  deriving DecidableEq, Repr

/-- Where the main thread is. -/
inductive MainPc where
  | idle
  /-- in `update`, under `addMtx`, before the next client of `addingClients` -/
  | adding
  /-- in `onClientConnected` -/
  | connecting (client : Client)
  /-- before `getTickCount()` -/
  | ticking
  /-- before `iter != allClients.end()` -/
  | visiting (now : UInt64) (iter : Nat)
  /-- before `hasNewData = false` -/
  | clearing (now : UInt64) (iter : Nat)
  /-- in `onRecv` -/
  | receiving (now : UInt64) (iter : Nat)
  /-- before `flushClient` -/
  | flushing (now : UInt64) (iter : Nat)
  /-- before `if (client->isClosing)` -/
  | testing (now : UInt64) (iter : Nat)
  /-- in `destroyClient`, before the `erase` -/
  | destroying (now : UInt64) (iter : Nat)
  /-- in `cleanup`, before `eventThread.join()` -/
  | joining
  /-- in `cleanup`, so many clients past the `begin` of `allClients` -/
  | cleaning (iter : Nat)
  deriving DecidableEq, Repr

structure Server where
  config : ServerConfig
  allClients : List Client
  addingClients : List Client
  numClients : UInt16
  /-- the `static` of `getNextClientID` -/
  nextID : UInt16
  isRunning : Bool
  socket : SocketPc
  main : MainPc
  /-- history: the connections so far -/
  accepted : Nat
  /-- history: the last reading of the clock -/
  tick : UInt64
  deriving DecidableEq, Repr

/-- What the server calls, and what it does to a socket. -/
inductive Event where
  /-- `close(acceptedSocket)` at the limit -/
  | refused (conn : Nat)
  /-- `createClient`, at the time of `lastActiveTime` -/
  | createClient (conn : Nat) (now : UInt64)
  | onClientConnected (conn : Nat)
  | onRecv (conn : Nat) (now : UInt64)
  /-- history: `isClosing` is set for `kickTime` -/
  | kicked (conn : Nat) (now : UInt64)
  /-- `close(client->socket)`, `onClientDestroyed` and `onDisconnected` -/
  | onClientDestroyed (conn : Nat)
  /-- history: `update` is through with all clients -/
  | updated (now : UInt64)
  /-- history: the end of `cleanup` -/
  | cleanedUp
  deriving DecidableEq, Repr

/-- A constructed server, after `init`. -/
def init (cfg : ServerConfig) : Server :=
  { config := if cfg.maxConnection = 0 then { cfg with maxConnection := 5000 } else cfg
    allClients := [], addingClients := [], numClients := 0, nextID := 0, isRunning := false, socket := .exited
    main := .idle, accepted := 0, tick := 0 }

/-- The client that `addClient` has made. -/
def SocketPc.hand : SocketPc → List Client
  | .created client => [client]
  | _ => []

def SocketPc.held : SocketPc → List Nat
  | .accepted conn => [conn]
  | _ => []

/-- The client that `onClientConnected` is called with. -/
def MainPc.hand : MainPc → List Client
  | .connecting client => [client]
  | _ => []

/-- The clients in `allClients` that `destroyClient` has not been called for. -/
def MainPc.live (allClients : List Client) : MainPc → List Client
  | .destroying _ iter => allClients.eraseIdx iter
  | .cleaning iter => allClients.drop iter
  | _ => allClients

/-- The client that is on its way to `addingClients` is changed. -/
def SocketPc.map (f : Client → Client) : SocketPc → SocketPc
  | .created client => .created (f client)
  | socket => socket

/-- The client that is on its way to `allClients` is changed. -/
def MainPc.map (f : Client → Client) : MainPc → MainPc
  | .connecting client => .connecting (f client)
  | main => main

/-- The program runs, and may call the server. -/
def MainPc.userCode : MainPc → Bool
  | .idle | .connecting _ | .receiving .. | .destroying .. | .cleaning _ => true
  | _ => false

namespace Server

variable (server : Server)

def getClient (clientID : UInt16) : Option Client := server.allClients.find? fun client => client.id == clientID

/-- The client of a connection is changed, wherever the server has it. -/
def modify (conn : Nat) (f : Client → Client) : Server :=
  let change := fun client => if client.conn = conn then f client else client
  { server with
    allClients := server.allClients.map change
    addingClients := server.addingClients.map change
    socket := server.socket.map change
    main := server.main.map change }

def kickClient (clientID : UInt16) : Server × Bool :=
  match server.getClient clientID with
  | none => (server, false)
  | some client => (server.modify client.conn fun client => { client with isClosing := true }, true)

/-- `getNextClientID`. -/
def getNextClientID : Option UInt16 :=
  Accept.getNextClientID (server.allClients.map fun client => (client.id, client.conn)) 65536 server.nextID

/-- `allClients.insert(std::make_pair(client->id, client))` -/
def insert (client : Client) : List Client :=
  if (server.getClient client.id).isSome then server.allClients else server.allClients ++ [client]

end Server

inductive Action where
  | startListen
  /-- `accept4` returns a socket, and the limit is tested -/
  | accept
  | createClient (now : UInt64)
  /-- `addingClients.push_back(client)` -/
  | addClient
  /-- the socket thread finds `isRunning` unset -/
  | exit
  /-- `isClosing = true` -/
  | close (conn : Nat)
  /-- `hasNewData = true` -/
  | newData (conn : Nat)
  | kickClient (clientID : UInt16)
  | update
  /-- `getTickCount()`, and the order of the clients in `allClients` -/
  | getTickCount (now : UInt64) (order : List Client)
  /-- the next access of `update`, or of `cleanup` -/
  | next
  | cleanup
  deriving DecidableEq, Repr

def socketStep (server : Server) : Action → Option (Server × Option Event)
  | .accept =>
    match server.socket with
    | .waiting =>
      let conn := server.accepted
      let server := { server with accepted := conn + 1 }
      if server.numClients < server.config.maxConnection then some ({ server with socket := .accepted conn }, none)
      else some (server, some (.refused conn))
    | _ => none
  | .createClient now =>
    match server.socket with
    | .accepted conn =>
      some ({ server with socket := .created ⟨conn, 0, now, false, false⟩, tick := now }, some (.createClient conn now))
    | _ => none
  | .addClient =>
    match server.socket, server.main with
    | .created _, .adding | .created _, .connecting _ => none
    | .created client, _ =>
      some ({ server with addingClients := server.addingClients ++ [client], socket := .waiting }, none)
    | _, _ => none
  | .exit =>
    if server.socket = .waiting ∧ ¬ server.isRunning then some ({ server with socket := .exited }, none) else none
  | _ => none

/-- The next access of `update` or `cleanup`. -/
def nextStep (server : Server) : Option (Server × Option Event) :=
  match server.main with
  | .adding =>
    match server.addingClients with
    | [] => some ({ server with main := .ticking }, none)
    | client :: addingClients =>
      match server.getNextClientID with
      | none => none
      | some id =>
        some ({ server with addingClients := addingClients, nextID := id, main := .connecting { client with id := id } },
          some (.onClientConnected client.conn))
  | .connecting client => some ({ server with allClients := server.insert client, main := .adding }, none)
  | .visiting now iter =>
    match server.allClients[iter]? with
    | none =>
      some ({ server with numClients := UInt16.ofNat server.allClients.length, main := .idle }, some (.updated now))
    | some client =>
      if client.hasNewData then some ({ server with main := .clearing now iter }, none)
      else if server.config.kickTime ≠ 0 ∧ now - client.lastActiveTime > server.config.kickTime then
        some ({ server with
          allClients := server.allClients.set iter { client with isClosing := true }
          main := .flushing now iter }, some (.kicked client.conn now))
      else some ({ server with main := .flushing now iter }, none)
  | .clearing now iter =>
    match server.allClients[iter]? with
    | none => none
    | some client =>
      some ({ server with
        allClients := server.allClients.set iter { client with hasNewData := false, lastActiveTime := now }
        main := .receiving now iter }, some (.onRecv client.conn now))
  | .receiving now iter => some ({ server with main := .flushing now iter }, none)
  | .flushing now iter => some ({ server with main := .testing now iter }, none)
  | .testing now iter =>
    match server.allClients[iter]? with
    | none => none
    | some client =>
      if client.isClosing then
        some ({ server with main := .destroying now iter }, some (.onClientDestroyed client.conn))
      else some ({ server with main := .visiting now (iter + 1) }, none)
  | .destroying now iter =>
    some ({ server with allClients := server.allClients.eraseIdx iter, main := .visiting now iter }, none)
  | .joining => if server.socket = .exited then some ({ server with main := .cleaning 0 }, none) else none
  | .cleaning iter =>
    match server.allClients[iter]? with
    | none => some ({ server with allClients := [], numClients := 0, main := .idle }, some .cleanedUp)
    | some client =>
      some ({ server with
        allClients := server.allClients.set iter { client with isClosing := true }
        main := .cleaning (iter + 1) }, some (.onClientDestroyed client.conn))
  | .idle | .ticking => none

def mainStep (server : Server) : Action → Option (Server × Option Event)
  | .startListen =>
    if server.main = .idle ∧ server.socket = .exited then
      some ({ server with isRunning := true, socket := .waiting }, none)
    else none
  | .kickClient clientID => if server.main.userCode then some ((server.kickClient clientID).1, none) else none
  | .update =>
    if server.main = .idle then
      some ({ server with main := if server.addingClients.isEmpty then .ticking else .adding }, none)
    else none
  | .getTickCount now order =>
    if server.main = .ticking ∧ order.Perm server.allClients then
      some ({ server with allClients := order, main := .visiting now 0, tick := now }, none)
    else none
  | .next => nextStep server
  | .cleanup =>
    if server.main = .idle then
      some ({ server with isRunning := false, main := if server.isRunning then .joining else .cleaning 0 }, none)
    else none
  | _ => none

def step (server : Server) (action : Action) : Option (Server × Option Event) :=
  match action with
  -- a client that the server has let go of is nowhere to be changed
  | .close conn => some (server.modify conn fun client => { client with isClosing := true }, none)
  | .newData conn => some (server.modify conn fun client => { client with hasNewData := true }, none)
  | .accept | .createClient _ | .addClient | .exit => socketStep server action
  | .startListen | .kickClient _ | .update | .getTickCount .. | .next | .cleanup => mainStep server action

end Libws.Network.Clients
