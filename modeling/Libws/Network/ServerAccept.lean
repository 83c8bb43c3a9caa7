import Libws.Lib.Cyclic
import Libws.Lib.Machine
import Mathlib.Data.List.Basic

/-!
# The clients of the server, and their limit

Model of the accept branch of `processEventThread` (Linux), of `addClient`, `getNextClientID` and
`update` of `wsNetwork/src/ServerSocket.cpp`.  The socket thread accepts and adds; the main thread
updates.  A step is one access that both threads can see: what runs under `addMtx` is one step.

* `getNextClientID` counts its tests down from `fuel`: with all 65536 ids taken it does not end.
* Whether a client `isClosing` when `update` looks at it comes with the step.
* `limit_kept` — the limit is kept when the connections that are accepted between two ends of `update` fit in what
  the counter, which only the end of `update` refreshes, leaves of it; and if no client closes, only then.
-/

set_option autoImplicit false

namespace Libws.Network.Accept

open Libws.Machine

abbrev Socket := Nat

/-- Where the socket thread is in the accept loop. -/
inductive SocketPc where
  /-- before `accept4` -/
  | waiting
  /-- the limit is tested; before `addClient` -/
  | adding (acceptedSocket : Socket)
  deriving DecidableEq, Repr

/-- Where the main thread is in `update`. -/
inductive MainPc where
  /-- before `if (!addingClients.empty())` -/
  | idle
  /-- before the section under `addMtx` -/
  | adding
  /-- in the loop over `allClients`, so many clients past its `begin` -/
  | iterating (iter : Nat)
  deriving DecidableEq, Repr

structure Server where
  maxConnection : UInt16
  allClients : List (UInt16 × Socket)
  addingClients : List Socket
  numClients : UInt16
  /-- the `static` of `getNextClientID` -/
  nextID : UInt16
  socket : SocketPc
  main : MainPc
  /-- history: the clients added since `update` last looked at `addingClients` -/
  late : Nat
  /-- history: the clients added since it did so before its last end, which `numClients` does not count -/
  uncounted : Nat
  deriving DecidableEq, Repr

/-- A server that listens. -/
def Server.new (maxConnection : UInt16) : Server := ⟨maxConnection, [], [], 0, 0, .waiting, .idle, 0, 0⟩

/-- `allClients.find(id) != allClients.end()` -/
def taken (allClients : List (UInt16 × Socket)) (id : UInt16) : Bool := allClients.any fun client => client.1 == id

/-- The loop of `getNextClientID`: the next value of `nextID`, which is the result. -/
def getNextClientID (allClients : List (UInt16 × Socket)) : (fuel : Nat) → (nextID : UInt16) → Option UInt16
  | 0, _ => none
  | fuel + 1, nextID =>
    let nextID := nextID + 1
    if taken allClients nextID then getNextClientID allClients fuel nextID else some nextID

/-- `allClients.insert(std::make_pair(id, client))` -/
def insert (allClients : List (UInt16 × Socket)) (id : UInt16) (client : Socket) : List (UInt16 × Socket) :=
  if taken allClients id then allClients else allClients ++ [(id, client)]

/-- The loop over `addingClients`. -/
def addAll : (nextID : UInt16) → List (UInt16 × Socket) → List Socket → Option (UInt16 × List (UInt16 × Socket))
  | nextID, allClients, [] => some (nextID, allClients)
  | nextID, allClients, client :: addingClients =>
    match getNextClientID allClients 65536 nextID with
    | none => none
    | some id => addAll id (insert allClients id client) addingClients

inductive Action where
  /-- `accept4` returns a socket, and the limit is tested -/
  | accept (acceptedSocket : Socket)
  | addClient
  /-- the next access of `update`; `isClosing` of the client if it looks at one -/
  | update (isClosing : Bool)
  deriving DecidableEq, Repr

def updateStep (server : Server) (isClosing : Bool) : Option Server :=
  match server.main with
  | .idle =>
    if server.addingClients.isEmpty then some { server with main := .iterating 0, late := 0 }
    else some { server with main := .adding }
  | .adding =>
    match addAll server.nextID server.allClients server.addingClients with
    | none => none
    | some (nextID, allClients) =>
      some { server with
        allClients := allClients
        addingClients := []
        nextID := nextID
        main := .iterating 0
        late := 0 }
  | .iterating iter =>
    if iter < server.allClients.length then
      if isClosing then some { server with allClients := server.allClients.eraseIdx iter }
      else some { server with main := .iterating (iter + 1) }
    else
      some { server with
        numClients := UInt16.ofNat server.allClients.length
        main := .idle
        uncounted := server.late }

def step (server : Server) : Action → Option (Server × Unit)
  | .accept acceptedSocket =>
    match server.socket with
    | .waiting =>
      if server.numClients < server.maxConnection then some ({ server with socket := .adding acceptedSocket }, ())
      else some (server, ())
    | .adding _ => none
  | .addClient =>
    match server.socket with
    | .adding acceptedSocket =>
      some ({ server with
        addingClients := server.addingClients ++ [acceptedSocket]
        socket := .waiting
        late := server.late + 1
        uncounted := server.uncounted + 1 }, ())
    | .waiting => none
  | .update isClosing => (updateStep server isClosing).map (·, ())

/-! ## The limit -/

/-- The clients that the server holds are at most those configured. -/
def Within (server : Server) : Prop :=
  server.allClients.length + server.addingClients.length ≤ server.maxConnection.toNat

instance (server : Server) : Decidable (Within server) := inferInstanceAs (Decidable (_ ≤ _))

/-- A client is added only while the counter, and the connections accepted that it does not count, leave a place. -/
def Place (server : Server) : Action → Prop
  | .addClient => server.socket ≠ .waiting → server.numClients.toNat + server.uncounted < server.maxConnection.toNat
  | .accept _ | .update _ => True

instance (server : Server) : DecidablePred (Place server)
  | .addClient =>
    inferInstanceAs
      (Decidable (server.socket ≠ .waiting → server.numClients.toNat + server.uncounted < server.maxConnection.toNat))
  | .accept _ | .update _ => isTrue trivial

/-- The clients that the server holds are among those counted and those accepted since. -/
structure Inv (server : Server) : Prop where
  held : server.allClients.length + server.addingClients.length ≤ server.numClients.toNat + server.uncounted
  within : server.numClients.toNat + server.uncounted ≤ server.maxConnection.toNat
  late : ∀ iter, server.main = .iterating iter → server.addingClients.length = server.late

theorem Inv.kept {server : Server} (h : Inv server) : Within server := Nat.le_trans h.held h.within

/-- The loop of `getNextClientID` is a search around the ids. -/
theorem getNextClientID_eq (allClients : List (UInt16 × Socket)) (fuel : Nat) : ∀ nextID,
    getNextClientID allClients fuel nextID = Cyclic.search (· + 1) (taken allClients) fuel nextID := by
  induction fuel with
  | zero => exact fun _ => rfl
  | succ fuel ih =>
    intro nextID
    simp only [getNextClientID, Cyclic.search]
    rw [ih]

theorem getNextClientID_free {allClients : List (UInt16 × Socket)} {id : UInt16} {fuel : Nat} {nextID : UInt16}
    (h : getNextClientID allClients fuel nextID = some id) : taken allClients id = false := by
  rw [getNextClientID_eq] at h
  exact Cyclic.search_free h

theorem length_insert {allClients : List (UInt16 × Socket)} {id : UInt16} (h : taken allClients id = false)
    (client : Socket) : (insert allClients id client).length = allClients.length + 1 := by
  rw [insert, h]
  exact List.length_append

/-- No client is lost when those that wait are inserted. -/
theorem length_addAll :
    ∀ {addingClients : List Socket} {nextID nextID' : UInt16} {allClients allClients' : List (UInt16 × Socket)},
      addAll nextID allClients addingClients = some (nextID', allClients') →
      allClients'.length = allClients.length + addingClients.length
  | [], _, _, _, _, h => by
    cases h
    rfl
  | client :: addingClients, _, _, _, _, h => by
    simp only [addAll] at h
    split at h
    · cases h
    · rename_i id hid
      have hrest := length_addAll h
      have hinsert := length_insert (getNextClientID_free hid) client
      rw [hrest, hinsert, List.length_cons]
      omega

/-- What the end of `update` counts is not cut off. -/
theorem Inv.count {server : Server} (h : Inv server) :
    (UInt16.ofNat server.allClients.length).toNat = server.allClients.length := by
  have hkept := h.kept
  have hmax : server.maxConnection.toNat < 65536 := server.maxConnection.toNat_lt
  unfold Within at hkept
  exact UInt16.toNat_ofNat_of_lt (by show _ < 65536; omega)

theorem updateStep_inv {server server' : Server} {isClosing : Bool} (h : Inv server)
    (hstep : updateStep server isClosing = some server') : Inv server' := by
  cases hpc : server.main with
  | idle =>
    simp only [updateStep, hpc] at hstep
    split at hstep <;> cases hstep
    · rename_i hempty
      exact ⟨h.held, h.within, fun _ _ => congrArg List.length (List.isEmpty_iff.mp hempty)⟩
    · exact ⟨h.held, h.within, fun _ hmain => by cases hmain⟩
  | adding =>
    simp only [updateStep, hpc] at hstep
    split at hstep
    · cases hstep
    · rename_i nextID allClients hall
      cases hstep
      have hheld := h.held
      have hlength := length_addAll hall
      refine ⟨?_, h.within, fun _ _ => rfl⟩
      show allClients.length + 0 ≤ server.numClients.toNat + server.uncounted
      omega
  | iterating iter =>
    have hlate := h.late iter hpc
    simp only [updateStep, hpc] at hstep
    split at hstep
    · rename_i hlt
      split at hstep <;> cases hstep
      · have hlength : (server.allClients.eraseIdx iter).length + 1 = server.allClients.length :=
          List.length_eraseIdx_add_one hlt
        have hheld := h.held
        refine ⟨?_, h.within, fun _ _ => hlate⟩
        show (server.allClients.eraseIdx iter).length + server.addingClients.length ≤
          server.numClients.toNat + server.uncounted
        omega
      · exact ⟨h.held, h.within, fun _ _ => hlate⟩
    · cases hstep
      have hkept := h.kept
      unfold Within at hkept
      have hcount := h.count
      refine ⟨?_, ?_, fun _ hmain => by cases hmain⟩
      · show server.allClients.length + server.addingClients.length ≤
          (UInt16.ofNat server.allClients.length).toNat + server.late
        omega
      · show (UInt16.ofNat server.allClients.length).toNat + server.late ≤ server.maxConnection.toNat
        omega

theorem step_inv {server server' : Server} {a : Action} {r : Unit} (h : Inv server) (hok : Place server a)
    (hstep : step server a = some (server', r)) : Inv server' := by
  cases a with
  | accept acceptedSocket =>
    simp only [step] at hstep
    split at hstep
    · split at hstep <;> cases hstep
      · exact ⟨h.held, h.within, h.late⟩
      · exact h
    · cases hstep
  | addClient =>
    simp only [step] at hstep
    split at hstep
    · rename_i acceptedSocket hpc
      cases hstep
      have hroom := hok (by rw [hpc]; exact SocketPc.noConfusion)
      have hheld := h.held
      have hlength : (server.addingClients ++ [acceptedSocket]).length = server.addingClients.length + 1 :=
        List.length_append
      refine ⟨?_, ?_, fun iter hmain => ?_⟩
      · show server.allClients.length + (server.addingClients ++ [acceptedSocket]).length ≤
          server.numClients.toNat + (server.uncounted + 1)
        omega
      · show server.numClients.toNat + (server.uncounted + 1) ≤ server.maxConnection.toNat
        omega
      · have hlate := h.late iter hmain
        show (server.addingClients ++ [acceptedSocket]).length = server.late + 1
        omega
    · cases hstep
  | update isClosing =>
    obtain ⟨server₁, hupdate, heq⟩ := Option.map_eq_some_iff.mp hstep
    cases heq
    exact updateStep_inv h hupdate

theorem inv_new (maxConnection : UInt16) : Inv (.new maxConnection) :=
  ⟨Nat.le_refl 0, Nat.zero_le _, fun _ hmain => by cases hmain⟩

/-! ## Runs in which no client closes -/

/-- No client is closing when `update` looks at it. -/
def Stays : Action → Prop
  | .update isClosing => isClosing = false
  | .accept _ | .addClient => True

/-- Then the server holds all that are counted and that were accepted since. -/
structure InvAll (server : Server) : Prop where
  inv : Inv server
  all : server.allClients.length + server.addingClients.length = server.numClients.toNat + server.uncounted

theorem step_all {server server' : Server} {a : Action} {r : Unit} (h : InvAll server) (hok : Place server a)
    (hstays : Stays a) (hstep : step server a = some (server', r)) : InvAll server' := by
  refine ⟨step_inv h.inv hok hstep, ?_⟩
  have hall := h.all
  cases a with
  | accept acceptedSocket =>
    simp only [step] at hstep
    split at hstep
    · split at hstep <;> cases hstep <;> exact hall
    · cases hstep
  | addClient =>
    simp only [step] at hstep
    split at hstep
    · rename_i acceptedSocket hpc
      cases hstep
      have hlength : (server.addingClients ++ [acceptedSocket]).length = server.addingClients.length + 1 :=
        List.length_append
      show server.allClients.length + (server.addingClients ++ [acceptedSocket]).length =
        server.numClients.toNat + (server.uncounted + 1)
      omega
    · cases hstep
  | update isClosing =>
    obtain rfl : isClosing = false := hstays
    obtain ⟨server₁, hupdate, heq⟩ := Option.map_eq_some_iff.mp hstep
    cases heq
    cases hpc : server.main with
    | idle =>
      simp only [updateStep, hpc] at hupdate
      split at hupdate <;> cases hupdate <;> exact hall
    | adding =>
      simp only [updateStep, hpc] at hupdate
      split at hupdate
      · cases hupdate
      · rename_i nextID allClients hadd
        cases hupdate
        have hlength := length_addAll hadd
        show allClients.length + 0 = server.numClients.toNat + server.uncounted
        omega
    | iterating iter =>
      have hlate := h.inv.late iter hpc
      simp only [updateStep, hpc] at hupdate
      split at hupdate
      · rw [if_neg Bool.false_ne_true] at hupdate
        cases hupdate
        exact hall
      · cases hupdate
        have hcount := h.inv.count
        show server.allClients.length + server.addingClients.length =
          (UInt16.ofNat server.allClients.length).toNat + server.late
        omega

/-- A client that is added within the limit had a place. -/
theorem place_of_within {server : Server} {a : Action} (h : InvAll server)
    (hnext : ∀ server' r, step server a = some (server', r) → Within server') : Place server a := by
  cases a with
  | accept acceptedSocket => trivial
  | update isClosing => trivial
  | addClient =>
    have hall := h.all
    intro hpc
    cases hsocket : server.socket with
    | waiting => exact absurd hsocket hpc
    | adding acceptedSocket =>
      have hwithin : Within _ := hnext _ () (by rw [step, hsocket])
      have hlength : (server.addingClients ++ [acceptedSocket]).length = server.addingClients.length + 1 :=
        List.length_append
      change server.allClients.length + (server.addingClients ++ [acceptedSocket]).length ≤
        server.maxConnection.toNat at hwithin
      omega

/-- **The limit.**  In every run in which each client that is added finds a place, the server holds no more
clients than configured in any state; and in a run in which no client closes, only then. -/
theorem limit_kept (maxConnection : UInt16) (actions : List Action) :
    (Along step Place (.new maxConnection) actions → Always step Within (.new maxConnection) actions) ∧
      ((∀ a ∈ actions, Stays a) →
        (Always step Within (.new maxConnection) actions ↔ Along step Place (.new maxConnection) actions)) := by
  constructor
  · intro hplace
    exact hplace.always Inv (fun _ h => h.kept) (fun _ _ _ _ h hok hstep => step_inv h hok hstep)
      (inv_new maxConnection)
  · intro hstays
    have hnew : InvAll (.new maxConnection) := ⟨inv_new maxConnection, rfl⟩
    have hkeep : ∀ (server : Server) (a : Action) (server' : Server) (r : Unit), InvAll server → Stays a →
        Place server a → step server a = some (server', r) → InvAll server' :=
      fun _ _ _ _ h ha hok hstep => step_all h hok ha hstep
    exact always_iff_along_of InvAll (fun _ h => h.inv.kept) hkeep (fun _ _ h _ hnext => place_of_within h hnext) hstays hnew

/-- Two clients, each one counted before the next one is accepted, and a third connection that is refused. -/
def threeAccepted : List Action :=
  [.accept 5, .addClient, .update false, .update false, .update false, .update false, .accept 6, .addClient,
    .update false, .update false, .update false, .update false, .update false, .accept 7]

theorem limit_kept_two :
    Along step Place (.new 2) threeAccepted ∧ Always step Within (.new 2) threeAccepted := by
  have hplace : Along step Place (.new 2) threeAccepted := by decide +kernel
  exact ⟨hplace, (limit_kept 2 threeAccepted).1 hplace⟩

/-- Two connections are accepted before the first `update` of a server for one client. -/
theorem limit_exceeded :
    ¬ ∀ (maxConnection : UInt16) (actions : List Action), 1 ≤ maxConnection →
      Always step Within (.new maxConnection) actions := by
  intro hall
  have h := hall 1 [.accept 5, .addClient, .accept 6, .addClient] (by decide)
  have hlast : ¬ Within ⟨1, [], [5, 6], 0, 0, .waiting, .idle, 2, 2⟩ := by decide
  exact hlast (h.last rfl)

end Libws.Network.Accept
