import Libws.Lib.Machine
import Libws.Core.ByteArrayTape
import Libws.Network.ServerSocket

/-!
# `ws::network::ClientSocket`

Model of `include/ws/network/ClientSocket.h` and `wsNetwork/src/ClientSocket.cpp`: the worker
thread and the main thread as a machine whose steps are the single accesses to what they share.

* `WorkerPc` and `MainPc` tell where the threads are in `workerProc` and in `update`; a call of the
  program (`connect`, `close`, `send`) is one step, outside `update` or in a callback.
* What the system calls return is a part of the action.  `sockfd` is the number of the socket.
* A step may call back (`ClientEvent`).  `received`, `session` and `unseen` are history: the code does not
  have them.
-/

set_option autoImplicit false

namespace Libws.Network

open Libws.Word

inductive SocketStatus where
  | DISCONNECTED
  | CONNECTING
  | CONNECTED
  deriving DecidableEq, Repr

structure ClientSocket where
  readerBuffer : Core.ByteArray
  writerBuffer : Core.ByteArray
  lastStatus : SocketStatus
  status : SocketStatus
  sockfd : Nat
  deriving DecidableEq, Repr

namespace ClientSocket

/-- The constructor. -/
def new : ClientSocket :=
  { readerBuffer := Core.ByteArray.ofLength 0, writerBuffer := Core.ByteArray.ofLength 0, lastStatus := .DISCONNECTED,
    status := .DISCONNECTED, sockfd := 0 }

def connect (c : ClientSocket) : ClientSocket :=
  let c := if c.sockfd = 0 then { c with sockfd := 1 } else c
  match c.status with
  | .DISCONNECTED => { c with status := .CONNECTING, lastStatus := .CONNECTING }
  | .CONNECTING | .CONNECTED => c

def isConnected (c : ClientSocket) : Bool := c.status == .CONNECTED

def close (c : ClientSocket) : ClientSocket :=
  if c.isConnected then { c with status := .DISCONNECTED } else c

/-- `send(const void*, size_t)`. -/
def send (fresh : Nat → UInt8) (c : ClientSocket) (data : Option (List UInt8)) : Option ClientSocket :=
  (c.writerBuffer.writeData fresh data).map ({ c with writerBuffer := · })

/-- The loop `while (remain)` of `tryToSend`, with exactly the results that `::send` returns in it:
the buffer, what `tryToSend` returns, and the bytes that the system took. -/
def sendRemaining : (writerBuffer : Core.ByteArray) → (remain : Nat) → List Int →
    Option (Core.ByteArray × Bool × List UInt8)
  | writerBuffer, remain, [] => if remain = 0 then some (writerBuffer.clear, true, []) else none
  | writerBuffer, remain, sentLength :: results =>
    if remain = 0 then none
    else
      match writerBuffer.readData (some (List.replicate BUFFER_SIZE 0)) BUFFER_SIZE with
      | none => none
      | some (writerBuffer, buffer, length) =>
        if sentLength = -1 then
          if results = [] then some (writerBuffer, false, []) else none
        else
          let writerBuffer := if sentLength < length then writerBuffer.seek (sentLength - length) else writerBuffer
          (sendRemaining writerBuffer (sub64 remain sentLength.toNat) results).map fun (writerBuffer, ok, sent) =>
            (writerBuffer, ok, (buffer.getD []).take sentLength.toNat ++ sent)

/-- `tryToSend`. -/
def tryToSend (c : ClientSocket) (results : List Int) : Option (ClientSocket × Bool × List UInt8) :=
  (sendRemaining c.writerBuffer c.writerBuffer.size results).map fun (writerBuffer, ok, sent) =>
    ({ c with writerBuffer := writerBuffer }, ok, sent)

end ClientSocket

/-! ## The two threads -/

/-- Where the worker is in `workerProc`. -/
inductive WorkerPc where
  /-- before `switch (status)` -/
  | loop
  | connecting
  /-- in `tryToRecv`, before `select` -/
  | receiving
  /-- `recv` has returned `buffer`, before `readerMtx.lock()` -/
  | received (buffer : List UInt8)
  /-- before `tryToSend` -/
  | sending
  deriving DecidableEq, Repr

/-- Where the main thread is in `update`. -/
inductive MainPc where
  | idle
  /-- before `lastStatus = status` -/
  | changed
  /-- before `switch (status)` -/
  | switching
  /-- in `reset`, before `readerBuffer.truncate()` -/
  | resetReader
  /-- in `reset`, before `writerBuffer.truncate()` -/
  | resetWriter
  /-- before `onClosed()` -/
  | closed
  /-- in `onConnected` or `onClosed` -/
  | callback
  /-- before `status == SocketStatus::CONNECTED` -/
  | testing
  /-- before `readerMtx` is locked -/
  | receiving
  /-- in `onReceived`, or before `cutHead`, with `readerMtx` locked -/
  | cutting
  deriving DecidableEq, Repr

/-- The program runs, and may call the socket. -/
def MainPc.userCode : MainPc → Bool
  | .idle | .callback | .cutting => true
  | _ => false

/-- What the socket calls: the system, or a callback. -/
inductive ClientEvent where
  | connect (sockfd : Nat)
  | onConnected
  /-- with the buffer, and the position of its first byte among all bytes received -/
  | onReceived (first : Nat) (content : List UInt8)
  /-- the bytes from `first` to `last` were received in the session -/
  | onClosed (first last : Nat)
  deriving DecidableEq, Repr

structure ClientState where
  socket : ClientSocket
  worker : WorkerPc
  main : MainPc
  /-- the bytes that were written to `readerBuffer` -/
  received : List UInt8
  /-- where in `received` the session begins -/
  session : Nat
  /-- bytes were written to `readerBuffer` since `update` looked into it, or since the session began -/
  unseen : Bool
  deriving DecidableEq, Repr

def ClientState.new : ClientState :=
  { socket := ClientSocket.new, worker := .loop, main := .idle, received := [], session := 0, unseen := false }

/-- What `recv` has returned and is not yet in the buffer. -/
def ClientState.pending (s : ClientState) : List UInt8 :=
  match s.worker with
  | .received buffer => buffer
  | _ => []

/-- What `select` and `recv` return. -/
inductive RecvResult where
  | nothing
  /-- `recv` returns 0 or -1 -/
  | closed
  | data (buffer : List UInt8)
  deriving DecidableEq, Repr

inductive ClientAction where
  /-- the worker's `switch (status)` -/
  | poll
  /-- `::connect` fails or succeeds, or it is too early for it -/
  | tryToConnect (result : Option Bool)
  | recv (result : RecvResult)
  | write (fresh : Nat → UInt8)
  | tryToSend (results : List Int)
  | connect
  | close
  | send (fresh : Nat → UInt8) (data : Option (List UInt8))
  /-- the next access of `update`; `onReceived` leaves the read position at `readPosition` -/
  | update (readPosition : Nat)

/-- `workerProc`. -/
def workerStep (s : ClientState) : ClientAction → Option (ClientState × Option ClientEvent)
  | .poll =>
    match s.worker with
    | .loop =>
      match s.socket.status with
      | .CONNECTING => some ({ s with worker := .connecting }, none)
      | .CONNECTED => some ({ s with worker := .receiving }, none)
      | .DISCONNECTED => some (s, none)
    | _ => none
  | .tryToConnect result =>
    match s.worker with
    | .connecting =>
      match result with
      | none => some ({ s with worker := .loop }, none)
      | some ok =>
        some ({ s with
          worker := .loop
          socket := { s.socket with status := if ok then .CONNECTED else .DISCONNECTED } },
          some (.connect s.socket.sockfd))
    | _ => none
  | .recv result =>
    match s.worker with
    | .receiving =>
      match result with
      | .nothing => some ({ s with worker := .sending }, none)
      | .closed => some ({ s with worker := .loop, socket := { s.socket with status := .DISCONNECTED } }, none)
      | .data buffer =>
        if buffer.length = 0 ∨ buffer.length > BUFFER_SIZE then none
        else some ({ s with worker := .received buffer }, none)
    | _ => none
  | .write fresh =>
    match s.worker with
    | .received buffer =>
      if s.main = .cutting then none
      else
        (s.socket.readerBuffer.writeData fresh (some buffer)).map fun readerBuffer =>
          ({ s with
            socket := { s.socket with readerBuffer := readerBuffer }
            worker := if buffer.length < BUFFER_SIZE then .sending else .receiving
            received := s.received ++ buffer
            unseen := true }, none)
    | _ => none
  | .tryToSend results =>
    match s.worker with
    | .sending =>
      (s.socket.tryToSend results).map fun (socket, ok, _) =>
        ({ s with
          socket := if ok then socket else { socket with status := .DISCONNECTED }
          worker := .loop }, none)
    | _ => none
  | _ => none

/-- `update`, and the calls of the program. -/
def mainStep (s : ClientState) : ClientAction → Option (ClientState × Option ClientEvent)
  | .connect =>
    if s.main.userCode then
      if s.socket.status = .DISCONNECTED then
        some ({ s with
          socket := s.socket.connect
          session := s.received.length + s.pending.length
          unseen := false }, none)
      else some ({ s with socket := s.socket.connect }, none)
    else none
  | .close => if s.main.userCode then some ({ s with socket := s.socket.close }, none) else none
  | .send fresh data =>
    if s.main.userCode then (s.socket.send fresh data).map fun socket =>
      ({ s with socket := socket }, none) else none
  | .update readPosition =>
    match s.main with
    | .idle =>
      if s.socket.lastStatus ≠ s.socket.status then some ({ s with main := .changed }, none)
      else some ({ s with main := .testing }, none)
    | .changed =>
      some ({ s with main := .switching, socket := { s.socket with lastStatus := s.socket.status } }, none)
    | .switching =>
      match s.socket.status with
      | .DISCONNECTED =>
        some ({ s with main := .resetReader, socket := { s.socket with sockfd := s.socket.sockfd + 1 } }, none)
      | .CONNECTED => some ({ s with main := .callback }, some .onConnected)
      | .CONNECTING => some ({ s with main := .testing }, none)
    | .resetReader =>
      some ({ s with
        main := .resetWriter
        socket := { s.socket with readerBuffer := s.socket.readerBuffer.clear } }, none)
    | .resetWriter =>
      some ({ s with
        main := .closed
        socket := { s.socket with writerBuffer := s.socket.writerBuffer.clear } }, none)
    | .closed =>
      some ({ s with main := .callback }, some (.onClosed s.session (s.received.length + s.pending.length)))
    | .callback => some ({ s with main := .testing }, none)
    | .testing =>
      if s.socket.status = .CONNECTED then some ({ s with main := .receiving }, none)
      else some ({ s with main := .idle }, none)
    | .receiving =>
      let s := { s with main := .cutting, unseen := false }
      let content := s.socket.readerBuffer.content
      if s.socket.readerBuffer.readAvailable ≠ 0 then
        some ({ s with
          socket := { s.socket with readerBuffer := s.socket.readerBuffer.readPosition readPosition } },
          some (.onReceived (s.received.length - content.length) content))
      else some (s, none)
    | .cutting =>
      (s.socket.readerBuffer.cutHead s.socket.readerBuffer.readPos none).map fun (readerBuffer, _) =>
        ({ s with main := .idle, socket := { s.socket with readerBuffer := readerBuffer } }, none)
  | _ => none

def clientStep (s : ClientState) (action : ClientAction) : Option (ClientState × Option ClientEvent) :=
  match action with
  | .connect | .close | .send .. | .update _ => mainStep s action
  | .poll | .tryToConnect _ | .recv _ | .write _ | .tryToSend _ => workerStep s action

end Libws.Network
