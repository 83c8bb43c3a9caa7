import Libws.Network.ServerBuffers

/-!
# Who has an `OverlappedData`, and who receives for a client

* `Hand` — the threads, the main thread and the operations of the system, as those who have an object;
* `Server.Typed` — an object is what it was set up for;
* `Phase`, `Server.Chain` — what a client has received, and what was written into its `readerBuffer`;
* `Inv` — what every step keeps;
* `Inv.transfer`, `Inv.quiet_thread`, `Inv.about_thread`, `Inv.quiet_main` — for a step it is enough to look at
  the hands that take part in it.
-/

set_option autoImplicit false

namespace Libws.Network.Windows

open Libws.Core Libws.Custody Libws.Machine

inductive Hand where
  | thread (pc : ThreadPc)
  | main (pc : MainPc)
  | system (operation : Operation)
  deriving DecidableEq, Repr

namespace Hand

def ioData : Hand → Option Nat
  | .thread pc => pc.ioData
  | .main pc => pc.ioData
  | .system operation => some operation.ioData

/-- What it had its object set up for, and is going to post or has posted. -/
def operationType : Hand → Option SocketOperation
  | .thread (.acceptEx _) | .main (.acceptEx ..) => some .ACCEPT
  | .main (.sending ..) => some .SEND
  | .main (.closing ..) => some .CLOSE_SERVER
  | .system operation => some operation.operationType
  | .thread _ | .main _ => none

def client : Hand → Option Nat
  | .thread (.closing _ client) | .thread (.checking _ client) | .thread (.writing _ client)
  | .thread (.receiving _ client _) | .main (.sending _ client) => some client
  | .system operation => operation.client
  | .thread _ | .main _ => none

/-- It will end a thread, or is one that ended. -/
def closes : Hand → Bool
  | .thread (.releasing _ .exit) | .thread .exited => true
  | .system operation => operation.operationType == .CLOSE_SERVER
  | .thread _ | .main _ => false

end Hand

/-- Where the receiving for a client is. -/
inductive Phase where
  /-- in the system, or about to be -/
  | ready
  /-- with the bytes in an object -/
  | chunk (ioData : Nat)
  deriving DecidableEq, Repr

def Hand.phase (client : Nat) : Hand → Option Phase
  | .thread (.checking ioData other) | .thread (.writing ioData other) =>
    if other = client then some (.chunk ioData) else none
  | .thread (.receiving _ other _) => if other = client then some .ready else none
  | .system operation =>
    if operation.operationType = .RECEIVE ∧ operation.client = some client then some .ready else none
  | .thread _ | .main _ => none

/-- The `CLOSE_SERVER` posted by a `cleanup` that is not over. -/
def MainPc.posted (eventThreads : Nat) : MainPc → Nat
  | .stopping i | .closing _ i => i
  | .joining => eventThreads
  | .idle | .listening _ | .acceptEx .. | .sending .. => 0

/-- How far `cleanup` may be. -/
def MainPc.InRange (eventThreads : Nat) : MainPc → Prop
  | .stopping i => i ≤ eventThreads
  | .closing _ i => i < eventThreads
  | .idle | .listening _ | .acceptEx .. | .sending .. | .joining => True

def Event.toldBytes (client : Nat) : Event → List UInt8
  | .received other bytes => if other = client then bytes else []
  | _ => []

def Event.writtenBytes (client : Nat) : Event → List UInt8
  | .writeClientBuffer other bytes => if other = client then bytes else []
  | _ => []

/-- The bytes that the threads were told of. -/
def received (client : Nat) (out : List (List Event)) : List UInt8 := out.flatten.flatMap (Event.toldBytes client)

/-- The bytes written into its `readerBuffer`. -/
def written (client : Nat) (out : List (List Event)) : List UInt8 := out.flatten.flatMap (Event.writtenBytes client)

namespace Server

variable (server : Server)

def hands : List Hand := server.eventThreads.map .thread ++ .main server.main :: server.pending.map .system

def phases (client : Nat) : List Phase := server.hands.filterMap (Hand.phase client)

def Closing (client : Nat) : Prop := ∃ found, server.findClient client = some found ∧ found.isClosing = true

/-- The object of a hand is what it was set up for. -/
def Typed (hand : Hand) : Prop := ∀ ioData operation, hand.ioData = some ioData →
    hand.operationType = some operation →
  ∃ data, server.findPosted ioData = some data ∧ data.operationType = operation

/-- What a client has received was written, or is about to be, or came when it was closing. -/
structure Chain (client : Nat) (out : List (List Event)) : Prop where
  one : (server.phases client).length ≤ 1
  ready : .ready ∈ server.phases client → received client out = written client out
  chunk : ∀ ioData, .chunk ioData ∈ server.phases client → ∃ data, server.findPosted ioData = some data ∧
    received client out = written client out ++ data.buffer
  ended : server.phases client = [] → ∃ rest, received client out = written client out ++ rest ∧
    (rest ≠ [] → server.Closing client)
  fresh : server.added ≤ client → server.phases client = [] ∧ received client out = []

end Server

structure Inv (server : Server) (out : List (List Event)) : Prop where
  owned : server.Owned
  typed : ∀ hand ∈ server.hands, server.Typed hand
  chain : ∀ client, server.Chain client out
  closes : server.hands.countP Hand.closes = server.main.posted server.eventThreads.length
  inRange : server.main.InRange server.eventThreads.length
  known : ∀ hand ∈ server.hands, ∀ client, hand.client = some client → client < server.added
  ids : server.clients.map Client.id = List.range server.added

variable {server server' : Server} {out : List (List Event)}

theorem received_concat (client : Nat) (out : List (List Event)) (events : List Event) :
    received client (out ++ [events]) = received client out ++ events.flatMap (Event.toldBytes client) := by
  rw [received, received, List.flatten_append, List.flatMap_append, List.flatten_singleton]

theorem written_concat (client : Nat) (out : List (List Event)) (events : List Event) :
    written client (out ++ [events]) = written client out ++ events.flatMap (Event.writtenBytes client) := by
  rw [written, written, List.flatten_append, List.flatMap_append, List.flatten_singleton]

theorem received_same {client : Nat} {events : List Event} (h : events.flatMap (Event.toldBytes client) = []) :
    received client (out ++ [events]) = received client out := by
  rw [received_concat, h, List.append_nil]

theorem written_same {client : Nat} {events : List Event} (h : events.flatMap (Event.writtenBytes client) = []) :
    written client (out ++ [events]) = written client out := by
  rw [written_concat, h, List.append_nil]

/-! ## Hands -/

/-- The thread `i` and the others. -/
theorem hands_thread {i : Nat} {pc : ThreadPc} (hpc : server.eventThreads[i]? = some pc) :
    ∃ rest, server.hands.Perm (.thread pc :: rest) ∧
      ∀ (pc' : ThreadPc) (posted : List Operation) (server' : Server),
        server'.eventThreads = server.eventThreads.set i pc' → server'.main = server.main →
        server'.pending = server.pending ++ posted →
        server'.hands.Perm (.thread pc' :: posted.map .system ++ rest) := by
  obtain ⟨hlt, rfl⟩ := List.getElem?_eq_some_iff.mp hpc
  refine ⟨(server.eventThreads.eraseIdx i).map .thread ++ .main server.main :: server.pending.map .system, ?_, ?_⟩
  · exact ((List.getElem_cons_eraseIdx_perm hlt).map Hand.thread).symm.append_right _
  · intro pc' posted server' hthreads hmain hpending
    refine List.perm_iff_count.mpr fun hand => ?_
    have hset := ((List.set_perm_cons_eraseIdx hlt pc').map Hand.thread).count_eq hand
    simp only [Server.hands, hthreads, hmain, hpending, List.map_append, List.map_cons, List.count_append, List.count_cons,
      List.cons_append] at hset ⊢
    omega

/-- The main thread and the others. -/
theorem hands_main (server : Server) :
    ∃ rest, server.hands.Perm (.main server.main :: rest) ∧
      ∀ (posted : List Operation) (server' : Server), server'.eventThreads = server.eventThreads →
        server'.pending = server.pending ++ posted →
        server'.hands.Perm (.main server'.main :: posted.map .system ++ rest) := by
  refine ⟨server.eventThreads.map .thread ++ server.pending.map .system, List.perm_middle, ?_⟩
  intro posted server' hthreads hpending
  refine List.perm_iff_count.mpr fun hand => ?_
  simp only [Server.hands, hthreads, hpending, List.map_append, List.count_append, List.count_cons,
    List.cons_append]
  omega

/-- A waiting thread, an operation, and the others. -/
theorem hands_dequeue {i k : Nat} {pc : ThreadPc} {operation : Operation} (hpc : server.eventThreads[i]? = some pc)
    (hpending : server.pending[k]? = some operation) :
    ∃ rest, server.hands.Perm (.thread pc :: .system operation :: rest) ∧
      ∀ (pc' : ThreadPc) (server' : Server), server'.eventThreads = server.eventThreads.set i pc' →
        server'.main = server.main → server'.pending = server.pending.eraseIdx k →
        server'.hands.Perm (.thread pc' :: rest) := by
  obtain ⟨hlt, rfl⟩ := List.getElem?_eq_some_iff.mp hpc
  obtain ⟨hlt', rfl⟩ := List.getElem?_eq_some_iff.mp hpending
  refine ⟨(server.eventThreads.eraseIdx i).map .thread ++ .main server.main :: (server.pending.eraseIdx k).map .system,
    ?_, ?_⟩
  · refine List.perm_iff_count.mpr fun hand => ?_
    have hthread := ((List.getElem_cons_eraseIdx_perm hlt).map Hand.thread).count_eq hand
    have hsystem := ((List.getElem_cons_eraseIdx_perm hlt').map Hand.system).count_eq hand
    simp only [Server.hands, List.map_cons, List.count_append, List.count_cons] at hthread hsystem ⊢
    omega
  · intro pc' server' hthreads hmain hpend
    rw [Server.hands, hthreads, hmain, hpend]
    exact ((List.set_perm_cons_eraseIdx hlt pc').map Hand.thread).append_right _

/-- Every object in a hand is posted. -/
theorem ioData_of_hands (server : Server) :
    (server.hands.filterMap Hand.ioData ++ server.lost).Perm server.holders := by
  have hthreads : (server.eventThreads.map Hand.thread).filterMap Hand.ioData =
      server.eventThreads.filterMap ThreadPc.ioData := by rw [List.filterMap_map]; rfl
  have hpending : (server.pending.map Hand.system).filterMap Hand.ioData = server.pending.map Operation.ioData := by
    rw [List.filterMap_map]
    exact congrFun (List.filterMap_eq_map (f := Operation.ioData)) server.pending
  have hmain : ∀ rest : List Hand, (Hand.main server.main :: rest).filterMap Hand.ioData =
      server.main.ioData.toList ++ rest.filterMap Hand.ioData := by
    intro rest
    rw [List.filterMap_cons, Hand.ioData]
    cases server.main.ioData <;> rfl
  rw [Server.hands, List.filterMap_append, hmain, hthreads, hpending, Server.holders, Server.held]
  simp only [List.append_assoc, List.Perm.refl]

theorem Server.Owned.nodup_hands (h : server.Owned) : (server.hands.filterMap Hand.ioData).Nodup :=
  (List.nodup_append.mp ((ioData_of_hands server).nodup_iff.mpr h.owned.holders_nodup)).1

/-- Another hand has another object. -/
theorem Server.Owned.apart {gone : Hand} {rest : List Hand} (h : server.Owned)
    (hgone : server.hands.Perm (gone :: rest))
    {hand : Hand} (hhand : hand ∈ rest) {ioData other : Nat} (hdata : gone.ioData = some ioData)
    (hother : hand.ioData = some other) : other ≠ ioData := by
  have hnodup := (hgone.filterMap Hand.ioData).nodup_iff.mp h.nodup_hands
  rw [List.filterMap_cons_some hdata] at hnodup
  rintro rfl
  exact (List.nodup_cons.mp hnodup).1 (List.mem_filterMap.mpr ⟨hand, hhand, hother⟩)

theorem Server.Owned.mem_posted (h : server.Owned) {hand : Hand} (hhand : hand ∈ server.hands) {ioData : Nat}
    (hdata : hand.ioData = some ioData) : ioData ∈ server.posted := by
  refine h.owned.held.mem_iff.mpr ((ioData_of_hands server).mem_iff.mp (List.mem_append_left _ ?_))
  exact List.mem_filterMap.mpr ⟨hand, hhand, hdata⟩

/-! ## The receiving for a client -/

theorem ioData_of_chunk {hand : Hand} {client ioData : Nat} (h : hand.phase client = some (.chunk ioData)) :
    hand.ioData = some ioData := by
  unfold Hand.phase at h
  split at h <;> first | cases h | skip
  all_goals
    split at h <;> cases h
  · rfl
  · rfl

theorem phase_singleton {hand : Hand} {client : Nat} {phase : Phase} (h : hand.phase client = some phase) :
    [hand].filterMap (Hand.phase client) = [phase] := List.filterMap_cons_some h

theorem phases_perm {hands : List Hand} (h : server.hands.Perm hands) (client : Nat) :
    (server.phases client).Perm (hands.filterMap (Hand.phase client)) := h.filterMap _

namespace Server.Chain

variable {client : Nat} {events : List Event} {rest : List Hand}

/-- The hand that receives for a client is the only one. -/
theorem others {hand : Hand} {phase : Phase} (h : server.Chain client out)
    (hgone : server.hands.Perm (hand :: rest)) (hphase : hand.phase client = some phase) :
    rest.filterMap (Hand.phase client) = [] ∧ phase ∈ server.phases client := by
  have hperm := phases_perm hgone client
  rw [List.filterMap_cons_some hphase] at hperm
  have hone := h.one
  rw [hperm.length_eq, List.length_cons] at hone
  exact ⟨List.eq_nil_of_length_eq_zero (by omega), hperm.mem_iff.mpr (List.mem_cons_self ..)⟩

/-- A step that is not about the client. -/
theorem keep (gone come : List Hand) (h : server.Chain client out) (hgone : server.hands.Perm (gone ++ rest))
    (hcome : server'.hands.Perm (come ++ rest)) (hold : gone.filterMap (Hand.phase client) = [])
    (hnew : come.filterMap (Hand.phase client) = [])
    (hfind : ∀ hand ∈ rest, ∀ ioData data, hand.ioData = some ioData → server.findPosted ioData = some data →
      server'.findPosted ioData = some data)
    (htold : events.flatMap (Event.toldBytes client) = [])
    (hwritten : events.flatMap (Event.writtenBytes client) = [])
    (hclosing : server.Closing client → server'.Closing client) (hadded : server.added ≤ server'.added) :
    server'.Chain client (out ++ [events]) := by
  have hrest := phases_perm hgone client
  have hrest' := phases_perm hcome client
  rw [List.filterMap_append, hold, List.nil_append] at hrest
  rw [List.filterMap_append, hnew, List.nil_append] at hrest'
  have hphases := hrest'.trans hrest.symm
  have hreceived := @received_same out client events htold
  have hwrote := @written_same out client events hwritten
  refine ⟨by rw [hphases.length_eq]; exact h.one, fun hready => ?_, fun ioData hchunk => ?_, fun hnil => ?_,
    fun hfresh => ?_⟩
  · rw [hreceived, hwrote]
    exact h.ready (hphases.mem_iff.mp hready)
  · obtain ⟨data, hdata, hbytes⟩ := h.chunk ioData (hphases.mem_iff.mp hchunk)
    obtain ⟨hand, hhand, hphase⟩ := List.mem_filterMap.mp (hrest'.mem_iff.mp hchunk)
    rw [hreceived, hwrote]
    exact ⟨data, hfind hand hhand ioData data (ioData_of_chunk hphase) hdata, hbytes⟩
  · obtain ⟨bytes, hbytes, hclosed⟩ := h.ended (List.perm_nil.mp (hphases.symm.trans (by rw [hnil])))
    rw [hreceived, hwrote]
    exact ⟨bytes, hbytes, fun hne => hclosing (hclosed hne)⟩
  · obtain ⟨hnil, hnone⟩ := h.fresh (Nat.le_trans hadded hfresh)
    rw [hreceived]
    exact ⟨List.perm_nil.mp (hphases.trans (by rw [hnil])), hnone⟩

theorem of_ready (hphases : server.phases client = [.ready]) (hbytes : received client out = written client out)
    (hadded : client < server.added) : server.Chain client out := by
  refine ⟨by rw [hphases]; exact Nat.le_refl 1, fun _ => hbytes, fun ioData hchunk => ?_, fun hnil => ?_,
    fun hfresh => ?_⟩
  · rw [hphases] at hchunk
    cases List.mem_singleton.mp hchunk
  · rw [hphases] at hnil
    cases hnil
  · omega

theorem of_chunk {data : OverlappedData} {ioData : Nat} (hphases : server.phases client = [.chunk ioData])
    (hdata : server.findPosted ioData = some data)
    (hbytes : received client out = written client out ++ data.buffer)
    (hadded : client < server.added) : server.Chain client out := by
  refine ⟨by rw [hphases]; exact Nat.le_refl 1, fun hready => ?_, fun other hchunk => ?_, fun hnil => ?_,
    fun hfresh => ?_⟩
  · rw [hphases] at hready
    cases List.mem_singleton.mp hready
  · rw [hphases] at hchunk
    cases List.mem_singleton.mp hchunk
    exact ⟨data, hdata, hbytes⟩
  · rw [hphases] at hnil
    cases hnil
  · omega

theorem of_ended {bytes : List UInt8} (hphases : server.phases client = [])
    (hbytes : received client out = written client out ++ bytes) (hclosing : bytes ≠ [] → server.Closing client)
    (hadded : client < server.added) : server.Chain client out := by
  refine ⟨by rw [hphases]; exact Nat.zero_le 1, fun hready => ?_, fun other hchunk => ?_, fun _ => ?_,
    fun hfresh => ?_⟩
  · rw [hphases] at hready
    cases hready
  · rw [hphases] at hchunk
    cases hchunk
  · exact ⟨bytes, hbytes, hclosing⟩
  · omega

end Server.Chain

/-! ## The objects that others have -/

theorem Server.Owned.findPosted (h : server.Owned) {hand : Hand} (hhand : hand ∈ server.hands) {ioData : Nat}
    (hdata : hand.ioData = some ioData) : ∃ data, server.findPosted ioData = some data ∧ data.id = ioData :=
  findPosted_of_mem (h.mem_posted hhand hdata)

/-- A new object, and the others. -/
theorem findPosted_create {created : Server} {ioData : Nat} {operation : SocketOperation}
    {acceptedSock : Option Nat}
    (h : server.Owned) (hcreated : server.createOverlappedData operation acceptedSock = (created, ioData)) :
    created.findPosted ioData = some ⟨ioData, operation, acceptedSock, []⟩ ∧
      ∀ other data, server.findPosted other = some data → created.findPosted other = some data := by
  obtain ⟨ioDataPool, ioDataPosted, made, made', heq, howned, -⟩ :=
    createOverlappedData_spec operation acceptedSock h.owned
  have hposted : created.ioDataPosted = server.ioDataPosted ++ [⟨ioData, operation, acceptedSock, []⟩] := by
    have hdata : (server.createOverlappedData operation acceptedSock).1.ioDataPosted = server.ioDataPosted ++
      [⟨(server.createOverlappedData operation acceptedSock).2, operation, acceptedSock, []⟩] := rfl
    rwa [hcreated] at hdata
  have hold : server.findPosted ioData = none := by
    refine List.find?_eq_none.mpr fun data hdata hid => ?_
    cases hcreated.symm.trans heq
    have hnodup := (List.nodup_append.mp howned.nodup).2.1
    simp only at hposted
    rw [hposted, List.map_append] at hnodup
    exact (List.nodup_append.mp hnodup).2.2 data.id (List.mem_map_of_mem hdata) data.id
      (by rw [eq_of_beq hid]; exact List.mem_singleton_self _) rfl
  refine ⟨?_, fun other data hdata => ?_⟩
  · rw [Server.findPosted, hposted, List.find?_append, ← Server.findPosted, hold, Option.none_or]
    exact List.find?_cons_of_pos (beq_self_eq_true ioData)
  · rw [Server.findPosted, hposted, List.find?_append, ← Server.findPosted, hdata, Option.some_or]

theorem find?_eraseP_other {ioData other : Nat} (hne : other ≠ ioData) (posted : List OverlappedData) :
    (posted.eraseP fun data => data.id == ioData).find? (fun data => data.id == other) =
      posted.find? fun data => data.id == other := by
  induction posted with
  | nil => rfl
  | cons data posted ih =>
    rw [List.eraseP_cons]
    cases hid : data.id == ioData with
    | true =>
      have hother : ¬ (data.id == other) = true := fun heq => hne ((eq_of_beq heq).symm.trans (eq_of_beq hid))
      exact (List.find?_cons_of_neg (p := fun data : OverlappedData => data.id == other) hother).symm
    | false =>
      rw [List.find?_cons, ← ih]
      exact List.find?_cons

/-- An object is released, and not the others. -/
theorem findPosted_release {ioData other : Nat} (hne : other ≠ ioData) :
    (server.releaseOverlappedData ioData).1.findPosted other = server.findPosted other := by
  unfold Server.releaseOverlappedData
  cases server.findPosted ioData with
  | none => rfl
  | some data => exact find?_eraseP_other hne server.ioDataPosted

/-- What is done to one object. -/
theorem findPosted_map {f : OverlappedData → OverlappedData} (hid : ∀ data, (f data).id = data.id)
    (hposted : server'.ioDataPosted = server.ioDataPosted.map f) (ioData : Nat) :
    server'.findPosted ioData = (server.findPosted ioData).map f := by
  have hpred : ((fun data : OverlappedData => data.id == ioData) ∘ f) = fun data => data.id == ioData :=
    funext fun data => by rw [Function.comp_apply, hid]
  rw [Server.findPosted, hposted, List.find?_map, hpred]
  rfl

theorem id_of_findPosted {ioData : Nat} {data : OverlappedData} (h : server.findPosted ioData = some data) :
    data.id = ioData :=
  eq_of_beq (List.find?_some (p := fun data : OverlappedData => data.id == ioData) h)

/-- What is done to one object is not done to the others. -/
theorem findPosted_map_other {f : OverlappedData → OverlappedData} {ioData other : Nat} {data : OverlappedData}
    (hid : ∀ data, (f data).id = data.id) (hsame : ∀ data, data.id ≠ ioData → f data = data)
    (hposted : server'.ioDataPosted = server.ioDataPosted.map f) (hne : other ≠ ioData)
    (h : server.findPosted other = some data) : server'.findPosted other = some data := by
  rw [findPosted_map hid hposted, h]
  exact congrArg some (hsame data (by rw [id_of_findPosted h]; exact hne))

theorem initOverlappedData_id (ioData : Nat) (operation : SocketOperation) (data : OverlappedData) :
    (if data.id = ioData then (⟨ioData, operation, none, []⟩ : OverlappedData) else data).id = data.id := by
  split
  next hid => exact hid.symm
  next => rfl

theorem findPosted_init {ioData : Nat} {data : OverlappedData} (operation : SocketOperation)
    (h : server.findPosted ioData = some data) :
    (server.initOverlappedData ioData operation).findPosted ioData = some ⟨ioData, operation, none, []⟩ := by
  rw [findPosted_map (initOverlappedData_id ioData operation) rfl, h]
  exact congrArg some (if_pos (id_of_findPosted h))

theorem findPosted_init_other {ioData other : Nat} {data : OverlappedData} (operation : SocketOperation)
    (hne : other ≠ ioData) (h : server.findPosted other = some data) :
    (server.initOverlappedData ioData operation).findPosted other = some data :=
  findPosted_map_other (initOverlappedData_id ioData operation) (fun _ hid => if_neg hid) rfl hne h

/-! ## The clients -/

/-- What does not open a client again. -/
theorem closing_map {f : Client → Client} {client : Nat} (hclients : server'.clients = server.clients.map f)
    (hid : ∀ other, (f other).id = other.id) (hclosing : ∀ other, other.isClosing = true →
    (f other).isClosing = true)
    (h : server.Closing client) : server'.Closing client := by
  obtain ⟨found, hfound, hclosed⟩ := h
  refine ⟨f found, ?_, hclosing found hclosed⟩
  have hpred : ((fun other : Client => other.id == client) ∘ f) = fun other => other.id == client :=
    funext fun other => by rw [Function.comp_apply, hid]
  rw [Server.findClient, hclients, List.find?_map, hpred, ← Server.findClient, hfound]
  rfl

theorem ids_map {f : Client → Client} (hid : ∀ other, (f other).id = other.id) (clients : List Client) :
    (clients.map f).map Client.id = clients.map Client.id := by
  rw [List.map_map]
  exact List.map_congr_left fun other _ => hid other

theorem closing_close {client : Nat} (other : Nat) (h : server.Closing client) :
    (server.close other).Closing client := by
  refine closing_map rfl (fun found => ?_) (fun found hclosed => ?_) h
  · split <;> rfl
  · split
    · rfl
    · exact hclosed

theorem closing_destroy {client : Nat} (other : Nat) (h : server.Closing client) :
    (server.destroy other).Closing client := by
  refine closing_map rfl (fun found => ?_) (fun found hclosed => ?_) h
  · split <;> rfl
  · split
    · exact hclosed
    · exact hclosed

theorem closing_append {client : Nat} {added : Client} (hclients : server'.clients = server.clients ++ [added])
    (h : server.Closing client) : server'.Closing client := by
  obtain ⟨found, hfound, hclosed⟩ := h
  refine ⟨found, ?_, hclosed⟩
  rw [Server.findClient, hclients, List.find?_append, ← Server.findClient, hfound, Option.some_or]

/-! ## Every step -/

namespace Inv

variable {rest : List Hand} {events : List Event}

theorem transfer (gone come : List Hand) (h : Inv server out) (howned : server'.Owned)
    (hgone : server.hands.Perm (gone ++ rest)) (hcome : server'.hands.Perm (come ++ rest))
    (hfind : ∀ hand ∈ rest, ∀ ioData data, hand.ioData = some ioData → server.findPosted ioData = some data →
      server'.findPosted ioData = some data)
    (htyped : ∀ hand ∈ come, server'.Typed hand) (hchain : ∀ client, server'.Chain client (out ++ [events]))
    (hcloses : come.countP Hand.closes + server.main.posted server.eventThreads.length =
      gone.countP Hand.closes + server'.main.posted server'.eventThreads.length)
    (hrange : server'.main.InRange server'.eventThreads.length)
    (hknown : ∀ hand ∈ come, ∀ client, hand.client = some client → client < server'.added)
    (hadded : server.added ≤ server'.added) (hids : server'.clients.map Client.id = List.range server'.added) :
    Inv server' (out ++ [events]) := by
  have hmem : ∀ hand ∈ rest, hand ∈ server.hands := fun hand hhand =>
    hgone.mem_iff.mpr (List.mem_append_right _ hhand)
  refine ⟨howned, fun hand hhand => ?_, hchain, ?_, hrange, fun hand hhand client hclient => ?_, hids⟩
  · rcases List.mem_append.mp (hcome.mem_iff.mp hhand) with hnew | hold
    · exact htyped hand hnew
    · intro ioData operation hdata hoperation
      obtain ⟨data, hfound, hoperation'⟩ := h.typed hand (hmem hand hold) ioData operation hdata hoperation
      exact ⟨data, hfind hand hold ioData data hdata hfound, hoperation'⟩
  · have hold := h.closes
    rw [hgone.countP_eq, List.countP_append] at hold
    rw [hcome.countP_eq, List.countP_append]
    omega
  · rcases List.mem_append.mp (hcome.mem_iff.mp hhand) with hnew | hold
    · exact hknown hand hnew client hclient
    · exact Nat.lt_of_lt_of_le (h.known hand (hmem hand hold) client hclient) hadded

/-- A step that no receiving is about. -/
theorem quiet (gone come : List Hand) (h : Inv server out) (howned : server'.Owned)
    (hgone : server.hands.Perm (gone ++ rest)) (hcome : server'.hands.Perm (come ++ rest))
    (hfind : ∀ hand ∈ rest, ∀ ioData data, hand.ioData = some ioData → server.findPosted ioData = some data →
      server'.findPosted ioData = some data)
    (htyped : ∀ hand ∈ come, server'.Typed hand) (hold : ∀ client, gone.filterMap (Hand.phase client) = [])
    (hnew : ∀ client, come.filterMap (Hand.phase client) = [])
    (htold : ∀ client, events.flatMap (Event.toldBytes client) = [])
    (hwritten : ∀ client, events.flatMap (Event.writtenBytes client) = [])
    (hcloses : come.countP Hand.closes + server.main.posted server.eventThreads.length =
      gone.countP Hand.closes + server'.main.posted server'.eventThreads.length)
    (hrange : server'.main.InRange server'.eventThreads.length)
    (hknown : ∀ hand ∈ come, ∀ client, hand.client = some client → client < server.added)
    (hclosing : ∀ client, server.Closing client → server'.Closing client) (hadded : server'.added = server.added)
    (hids : server'.clients.map Client.id = server.clients.map Client.id) : Inv server' (out ++ [events]) :=
  h.transfer gone come howned hgone hcome hfind htyped
    (fun client => (h.chain client).keep gone come hgone hcome (hold client)
    (hnew client) hfind (htold client) (hwritten client)
      (hclosing client) (Nat.le_of_eq hadded.symm))
    hcloses hrange
    (fun hand hhand client hclient => hadded ▸ hknown hand hhand client hclient)
    (Nat.le_of_eq hadded.symm) (by rw [hids, h.ids, hadded])

/-- A thread moves on, and no receiving is about it. -/
theorem quiet_thread {i : Nat} {pc pc' : ThreadPc} (posted : List Operation) (h : Inv server out)
    (howned : server'.Owned)
    (hpc : server.eventThreads[i]? = some pc) (hthreads : server'.eventThreads = server.eventThreads.set i pc')
    (hmain : server'.main = server.main) (hpending : server'.pending = server.pending ++ posted)
    (hfind : ∀ other data, pc.ioData ≠ some other → server.findPosted other = some data →
      server'.findPosted other = some data)
    (htyped : ∀ hand ∈ Hand.thread pc' :: posted.map .system, server'.Typed hand)
    (hold : ∀ client, (Hand.thread pc).phase client = none)
    (hnew : ∀ client, (Hand.thread pc' :: posted.map .system).filterMap (Hand.phase client) = [])
    (htold : ∀ client, events.flatMap (Event.toldBytes client) = [])
    (hwritten : ∀ client, events.flatMap (Event.writtenBytes client) = [])
    (hcloses : (Hand.thread pc' :: posted.map .system).countP Hand.closes = [Hand.thread pc].countP Hand.closes)
    (hknown : (Hand.thread pc' :: posted.map .system).filterMap Hand.client ⊆ [Hand.thread pc].filterMap Hand.client)
    (hclosing : ∀ client, server.Closing client → server'.Closing client) (hadded : server'.added = server.added)
    (hids : server'.clients.map Client.id = server.clients.map Client.id) : Inv server' (out ++ [events]) := by
  obtain ⟨rest, hgone, hmoved⟩ := hands_thread hpc
  have hlen : server'.eventThreads.length = server.eventThreads.length := by rw [hthreads, List.length_set]
  refine h.quiet [.thread pc] (.thread pc' :: posted.map .system) howned hgone (hmoved pc' posted server' hthreads hmain hpending) ?_ htyped
    (fun client => by rw [List.filterMap_cons_none (hold client)]; rfl) hnew htold hwritten (by rw [hcloses,
      hmain, hlen])
    (by rw [hmain, hlen]; exact h.inRange) (fun hand hhand client hclient => ?_) hclosing hadded hids
  · intro hand hhand other data hdata hfound
    exact hfind other data (fun hsame => h.owned.apart hgone hhand hsame hdata rfl) hfound
  · obtain ⟨before, hbefore, hclient'⟩ :=
      List.mem_filterMap.mp (hknown (List.mem_filterMap.mpr ⟨hand, hhand, hclient⟩))
    exact h.known before (hgone.mem_iff.mpr (List.mem_append_left _ hbefore)) client hclient'

/-- A thread moves on, and the receiving for one client with it. -/
theorem about_thread {i : Nat} {pc pc' : ThreadPc} (posted : List Operation) (about : Nat) (h : Inv server out)
    (howned : server'.Owned) (hpc : server.eventThreads[i]? = some pc)
    (hthreads : server'.eventThreads = server.eventThreads.set i pc')
    (hmain : server'.main = server.main) (hpending : server'.pending = server.pending ++ posted)
    (hfind : ∀ other data, pc.ioData ≠ some other → server.findPosted other = some data →
      server'.findPosted other = some data)
    (htyped : ∀ hand ∈ Hand.thread pc' :: posted.map .system, server'.Typed hand)
    (honly : (∃ phase, (Hand.thread pc).phase about = some phase) ∨ server.phases about = [])
    (hchain : (server'.phases about).Perm ((Hand.thread pc' :: posted.map .system).filterMap (Hand.phase about)) →
      server'.Chain about (out ++ [events]))
    (hold : ∀ client, about ≠ client → (Hand.thread pc).phase client = none)
    (hnew : ∀ client, about ≠ client → (Hand.thread pc' :: posted.map .system).filterMap (Hand.phase client) = [])
    (htold : ∀ client, events.flatMap (Event.toldBytes client) = [])
    (hwritten : ∀ client, about ≠ client → events.flatMap (Event.writtenBytes client) = [])
    (hcloses : (Hand.thread pc' :: posted.map .system).countP Hand.closes = [Hand.thread pc].countP Hand.closes)
    (hknown : ∀ hand ∈ Hand.thread pc' :: posted.map .system, ∀ client, hand.client = some client → client = about)
    (habout : about < server'.added) (hclosing : ∀ client, server.Closing client → server'.Closing client)
    (hadded : server.added ≤ server'.added) (hids : server'.clients.map Client.id = List.range server'.added) :
    Inv server' (out ++ [events]) := by
  obtain ⟨rest, hgone, hmoved⟩ := hands_thread hpc
  have hcome := hmoved pc' posted server' hthreads hmain hpending
  have hlen : server'.eventThreads.length = server.eventThreads.length := by rw [hthreads, List.length_set]
  have hrest : ∀ hand ∈ rest, ∀ other data, hand.ioData = some other → server.findPosted other = some data →
      server'.findPosted other = some data := fun hand hhand other data hdata hfound =>
    hfind other data (fun hsame => h.owned.apart hgone hhand hsame hdata rfl) hfound
  refine h.transfer [.thread pc] (.thread pc' :: posted.map .system) howned hgone hcome hrest htyped (fun client => ?_)
    (by rw [hcloses, hmain, hlen]) (by rw [hmain, hlen]; exact h.inRange)
    (fun hand hhand client hclient => (hknown hand hhand client hclient) ▸ habout) hadded hids
  by_cases hclient : about = client
  · subst hclient
    refine hchain ?_
    have hphases := phases_perm hcome about
    have hnone : rest.filterMap (Hand.phase about) = [] := by
      rcases honly with ⟨phase, hphase⟩ | hnil
      · exact ((h.chain about).others hgone hphase).1
      · have hall := phases_perm hgone about
        rw [hnil] at hall
        exact List.append_eq_nil_iff.mp ((List.filterMap_append (l := [Hand.thread pc])).symm.trans
          (List.nil_perm.mp hall)) |>.2
    rwa [List.filterMap_append, hnone, List.append_nil] at hphases
  · exact (h.chain client).keep [.thread pc] (.thread pc' :: posted.map .system) hgone hcome
      (by rw [List.filterMap_cons_none (hold client hclient)]; rfl) (hnew client hclient) hrest (htold client)
      (hwritten client hclient) (hclosing client) hadded

/-- The main thread moves on. -/
theorem quiet_main (posted : List Operation) (h : Inv server out) (howned : server'.Owned)
    (hthreads : server'.eventThreads = server.eventThreads) (hpending : server'.pending = server.pending ++ posted)
    (hfind : ∀ other data, server.findPosted other = some data → server'.findPosted other = some data)
    (htyped : ∀ hand ∈ Hand.main server'.main :: posted.map .system, server'.Typed hand)
    (hnew : ∀ client, (posted.map Hand.system).filterMap (Hand.phase client) = [])
    (htold : ∀ client, events.flatMap (Event.toldBytes client) = [])
    (hwritten : ∀ client, events.flatMap (Event.writtenBytes client) = [])
    (hcloses : (posted.map Hand.system).countP Hand.closes + server.main.posted server.eventThreads.length =
      server'.main.posted server.eventThreads.length)
    (hrange : server'.main.InRange server.eventThreads.length)
    (hknown : ∀ hand ∈ Hand.main server'.main :: posted.map .system, ∀ client, hand.client = some client →
      client < server.added)
    (hclosing : ∀ client, server.Closing client → server'.Closing client) (hadded : server'.added = server.added)
    (hids : server'.clients.map Client.id = server.clients.map Client.id) : Inv server' (out ++ [events]) := by
  obtain ⟨rest, hgone, hmoved⟩ := hands_main server
  have hphase : ∀ (pc : MainPc) client, (Hand.main pc).phase client = none := fun pc _ => by cases pc <;> rfl
  have hcloses' : ∀ pc : MainPc, (Hand.main pc).closes = false := fun pc => by cases pc <;> rfl
  refine h.quiet [.main server.main] (.main server'.main :: posted.map .system) howned hgone
    (hmoved posted server' hthreads hpending) (fun _ _ other data _ hfound => hfind other data hfound) htyped
    (fun client => by rw [List.filterMap_cons_none (hphase _ client)]; rfl)
    (fun client => by rw [List.filterMap_cons_none (hphase _ client)]; exact hnew client) htold hwritten ?_
    (by rw [hthreads]; exact hrange) hknown hclosing hadded hids
  rw [hthreads, List.countP_cons_of_neg (by rw [hcloses']; exact Bool.false_ne_true),
    List.countP_cons_of_neg (by rw [hcloses']; exact Bool.false_ne_true), List.countP_nil, Nat.zero_add]
  exact hcloses

end Inv

end Libws.Network.Windows
