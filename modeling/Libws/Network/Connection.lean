import Libws.Network.ServerReceive
import Libws.Network.ClientSend
import Libws.Lib.Fifo

/-!
# A connection from end to end

A `ClientSocket` and the client that the Linux server has for it, with the two streams of bytes between them.
Both sides are the models of the modules above, all their threads step by step.

* `Link` — what `::connect` makes: the client at the server, and what is on its way in both directions.  The
  system takes bytes from `send` in order, and `recv` gets them in order; on a socket that is not connected it
  does neither.
* `step` — one step of a side.  `::connect` may fail or succeed, and the system may close the connection at any
  time.

History tells what was passed to `send` at one end, and what the program was given at the other.
-/

set_option autoImplicit false

namespace Libws.Network.Connections

open Libws.Machine

/-- What is in an array from the read position on. -/
def unread (bytes : Core.ByteArray) : List UInt8 := bytes.content.drop bytes.readPos

/-- A client of the server. -/
structure Peer where
  reader : Receive.Client
  writerBuffer : Core.ByteArray

def Peer.client (peer : Peer) : Client := ⟨peer.writerBuffer, peer.reader.isClosing⟩

structure Link where
  sockfd : Nat
  peer : Peer
  /-- the bytes on their way from the server -/
  down : List UInt8
  /-- the bytes on their way to the server -/
  up : List UInt8
  /-- history: what `readerBuffer` had left from before -/
  left : List UInt8
  /-- history: what was passed to `Client::send` -/
  sent : List UInt8
  /-- history: what `onReceived` has read -/
  consumed : List UInt8
  /-- history: `readerBuffer` was truncated -/
  readerCleared : Bool
  /-- history: what `writerBuffer` had, and what was passed to `ClientSocket::send` -/
  queued : List UInt8
  /-- history: what was appended to the `readerBuffer` of the server's client -/
  arrived : List UInt8
  /-- history: `tryToSend` failed, or `writerBuffer` was truncated -/
  writerEnded : Bool

structure Connection where
  socket : ClientState
  link : Option Link

inductive Event where
  | socket (e : ClientEvent)
  | server (e : Receive.Event)
  deriving DecidableEq, Repr

inductive ServerAction where
  /-- `Client::send` -/
  | send (fresh : Nat → UInt8) (data : Option (List UInt8))
  | sendPacket (fresh : Nat → UInt8) (packet : Core.ByteArray.ReadableArray)
  | epollIn
  | recv (result : Receive.RecvResult)
  | notify
  | epollOut (os : Os)
  | epollRdhup
  /-- the next access of `update`; the system answers when it is `flushClient` -/
  | update (os : Os)

inductive Action where
  /-- a step of the `ClientSocket`, all but `tryToSend` -/
  | socket (action : ClientAction)
  | tryToSend (os : SendCounts)
  | server (action : ServerAction)

namespace Link

/-- `::connect` succeeds. -/
def new (socket : ClientSocket) : Link :=
  { sockfd := socket.sockfd, peer := ⟨.new, Client.new.writerBuffer⟩, down := [], up := [], left := unread socket.readerBuffer
    sent := [], consumed := [], readerCleared := false, queued := unread socket.writerBuffer, arrived := []
    writerEnded := false }

variable (link : Link)

/-- What a step of the `ClientSocket` does to the connection that it has. -/
def socketStep (s : ClientState) : ClientAction → Option Link
  | .recv (.data buffer) =>
    if s.socket.sockfd = link.sockfd ∧ buffer <+: link.down then some { link with down := link.down.drop buffer.length }
    else none
  | .send _ data => some { link with queued := link.queued ++ data.getD [] }
  | .update readPosition =>
    match s.main with
    | .receiving =>
      let bytes := s.socket.readerBuffer
      if bytes.readAvailable ≠ 0 then
        some { link with consumed := link.consumed ++ bytes.content.take (bytes.readPosition readPosition).readPos }
      else some link
    | .resetReader => some { link with readerCleared := true }
    | .resetWriter => some { link with writerEnded := true }
    | _ => some link
  | _ => some link

/-- A step of the server that does not write. -/
def read (action : Receive.Action) : Option (Link × Option Receive.Event) :=
  (Receive.step link.peer.reader action).map fun (reader, event) => ({ link with peer.reader := reader }, event)

/-- A step of the server that calls `writeFromBuffer`; `action` gets whether the client is closing after it. -/
def write (os : Os) (action : Bool → Receive.Action) : Option (Link × Option Receive.Event) :=
  match writeFromBuffer os link.peer.client with
  | none => none
  | some (client, sent) =>
    (Receive.step link.peer.reader (action client.isClosing)).map fun (reader, event) =>
      ({ link with peer := ⟨reader, client.writerBuffer⟩, down := link.down ++ sent }, event)

def serverStep : ServerAction → Option (Link × Option Receive.Event)
  | .send fresh data =>
    (link.peer.client.send fresh data).map fun client =>
      ({ link with peer.writerBuffer := client.writerBuffer, sent := link.sent ++ data.getD [] }, none)
  | .sendPacket fresh packet =>
    (link.peer.client.sendPacket fresh packet.val).map fun client =>
      ({ link with peer.writerBuffer := client.writerBuffer, sent := link.sent ++ packet.val.content }, none)
  | .epollIn => link.read .epollIn
  | .recv (.data buffer) =>
    if buffer <+: link.up then
      { link with up := link.up.drop buffer.length, arrived := link.arrived ++ buffer }.read (.recv (.data buffer))
    else none
  | .recv .closed => link.read (.recv .closed)
  | .recv .wouldBlock => link.read (.recv .wouldBlock)
  | .notify => link.read .notify
  | .epollOut os => link.write os .epollOut
  | .epollRdhup => link.read .epollRdhup
  | .update os => if link.peer.reader.main = .flushing then link.write os .update else link.read (.update false)

end Link

namespace Connection

def new : Connection := ⟨.new, none⟩

variable (conn : Connection)

def socketStep (action : ClientAction) : Option (Connection × Option Event) :=
  match action, clientStep conn.socket action with
  | .tryToSend _, _ | _, none => none
  | .tryToConnect (some true), some (socket, event) =>
    some (⟨socket, some (.new conn.socket.socket)⟩, event.map .socket)
  | action, some (socket, event) =>
    match conn.link with
    | none => some (⟨socket, none⟩, event.map .socket)
    | some link => (link.socketStep conn.socket action).map fun link => (⟨socket, some link⟩, event.map .socket)

/-- `tryToSend`, and what becomes of the status. -/
def tryToSend (os : SendCounts) : Option (Connection × Option Event) :=
  match conn.socket.worker, conn.socket.socket.tryToSendTo os with
  | .sending, some (socket, ok, sent) =>
    let socket := { conn.socket with
      socket := if ok then socket else { socket with status := .DISCONNECTED }
      worker := .loop }
    match conn.link with
    | none => if sent = [] then some (⟨socket, none⟩, none) else none
    | some link =>
      if sent = [] ∨ conn.socket.socket.sockfd = link.sockfd then
        some (⟨socket, some { link with up := link.up ++ sent, writerEnded := link.writerEnded || !ok }⟩, none)
      else none
  | _, _ => none

def serverStep (action : ServerAction) : Option (Connection × Option Event) :=
  match conn.link with
  | none => none
  | some link =>
    (link.serverStep action).map fun (link, event) => ({ conn with link := some link }, event.map .server)

end Connection

def step (conn : Connection) : Action → Option (Connection × Option Event)
  | .socket action => conn.socketStep action
  | .tryToSend os => conn.tryToSend os
  | .server action => conn.serverStep action

end Libws.Network.Connections
