import Libws.Lib.Custody
import Libws.Lib.Machine
import Libws.Network.ServerWindows

/-!
# Whose an `OverlappedData` is

The system writes into the buffer of an `OverlappedData` while it works on the operation.

* `held` — those that a thread or an operation in the system has; the others that are posted were lost;
* `createOverlappedData_spec`, `releaseOverlappedData_spec` — what is done to the pool;
* `buffers_owned` — **in every run** an object is in the pool, or posted and with one thread or operation, or
  lost when a call failed at once.
-/

set_option autoImplicit false

namespace Libws.Network.Windows

open Libws.Core Libws.Custody Libws.Machine

/-- The object that a thread deals with. -/
def ThreadPc.ioData : ThreadPc → Option Nat
  | .closing ioData _ | .accepted ioData | .adding ioData | .checking ioData _ | .writing ioData _
  | .receiving ioData _ _ | .refusing ioData | .releasing ioData _ | .acceptEx ioData => some ioData
  | .waiting | .posting | .exited => none

def MainPc.ioData : MainPc → Option Nat
  | .acceptEx ioData _ | .sending ioData _ | .closing ioData _ => some ioData
  | .idle | .listening _ | .stopping _ | .joining => none

namespace Server

variable (server : Server)

/-- The objects that the threads, the main thread and the operations in the system have. -/
def held : List Nat :=
  server.eventThreads.filterMap ThreadPc.ioData ++ server.main.ioData.toList ++ server.pending.map Operation.ioData

/-- Those, and what nobody has any more. -/
def holders : List Nat := server.held ++ server.lost

def pooled : List Nat := server.ioDataPool.list.map OverlappedData.id

def posted : List Nat := server.ioDataPosted.map OverlappedData.id

/-- Each object is in one place. -/
structure Owned : Prop where
  owned : Custody.Owned server.made server.pooled server.posted server.holders
  capacity : server.ioDataPool.capacity = 2000
  size : server.ioDataPool.size ≤ 2000

end Server

theorem new_owned : Server.new.Owned := by
  have hsize : Server.new.ioDataPool.size = 200 := by
    simp only [ObjectPool.size, Server.new, ObjectPool.new, List.length_map, List.length_range]
  refine ⟨?_, rfl, by omega⟩
  have hpool : Server.new.pooled = List.range 200 := by
    rw [Server.pooled, Server.new, ObjectPool.new, List.map_map]
    exact List.map_id _
  rw [hpool]
  exact owned_start 200

variable {server : Server} {holders : List Nat}

/-- What `createOverlappedData` changes; the object that it returns was in no hands. -/
theorem createOverlappedData_spec (operation : SocketOperation) (acceptedSock : Option Nat)
    (h : Custody.Owned server.made server.pooled server.posted holders) :
    ∃ ioDataPool ioDataPosted made ioData, server.createOverlappedData operation acceptedSock =
        ({ server with ioDataPool := ioDataPool, ioDataPosted := ioDataPosted, made := made }, ioData) ∧
      Custody.Owned made (ioDataPool.list.map OverlappedData.id) (ioDataPosted.map OverlappedData.id)
        (ioData :: holders) ∧
      ioDataPool.capacity = server.ioDataPool.capacity ∧ ioDataPool.size ≤ server.ioDataPool.size := by
  have hposted : ∀ data : OverlappedData, (server.ioDataPosted ++ [data]).map OverlappedData.id =
    server.posted ++ [data.id] :=
    fun _ => List.map_append
  rcases server.ioDataPool.alloc_cases ⟨server.made, .ACCEPT, none, []⟩ with ⟨rest, data, hlist, halloc⟩ | ⟨hnil, halloc⟩
  · refine ⟨{ server.ioDataPool with list := rest }, server.ioDataPosted ++ [⟨data.id, operation, acceptedSock, []⟩],
      server.made, data.id, by rw [Server.createOverlappedData, halloc]; rfl, ?_, rfl, ?_⟩
    · rw [hposted]
      rw [Server.pooled, hlist, List.map_append] at h
      exact h.lend
    · rw [ObjectPool.size, ObjectPool.size, hlist, List.length_append]
      exact Nat.le_add_right _ _
  · refine ⟨server.ioDataPool, server.ioDataPosted ++ [⟨server.made, operation, acceptedSock, []⟩], server.made + 1,
      server.made, by rw [Server.createOverlappedData, halloc]; rfl, ?_, rfl, Nat.le_refl _⟩
    rw [hposted]
    exact h.make

theorem findPosted_of_mem {ioData : Nat} (h : ioData ∈ server.posted) :
    ∃ data, server.findPosted ioData = some data ∧ data.id = ioData := by
  obtain ⟨data, hdata, rfl⟩ := List.mem_map.mp h
  have hsome : (server.findPosted data.id).isSome := List.find?_isSome.mpr ⟨data, hdata, beq_self_eq_true _⟩
  obtain ⟨found, hfound⟩ := Option.isSome_iff_exists.mp hsome
  have hid : (found.id == data.id) = true := List.find?_some (p := fun other : OverlappedData => other.id == data.id) hfound
  exact ⟨found, hfound, eq_of_beq hid⟩

/-- What `releaseOverlappedData` changes. -/
theorem releaseOverlappedData_spec {ioData : Nat}
    (h : Custody.Owned server.made server.pooled server.posted (ioData :: holders)) :
    ∃ ioDataPool ioDataPosted events, server.releaseOverlappedData ioData =
        ({ server with ioDataPool := ioDataPool, ioDataPosted := ioDataPosted }, events) ∧
      Custody.Owned server.made (ioDataPool.list.map OverlappedData.id)
        (ioDataPosted.map OverlappedData.id) holders ∧
      ioDataPool.capacity = server.ioDataPool.capacity ∧
      (server.ioDataPool.size ≤ server.ioDataPool.capacity → ioDataPool.size ≤ server.ioDataPool.capacity) := by
  obtain ⟨data, hfound, rfl⟩ := findPosted_of_mem h.mem_out
  have herase : (server.ioDataPosted.eraseP fun other => other.id == data.id).map OverlappedData.id =
      server.posted.erase data.id := by
    rw [Server.posted, List.erase_eq_eraseP', List.eraseP_map]
    rfl
  rcases server.ioDataPool.free_cases data with ⟨hfree, hroom⟩ | ⟨hfree, -⟩
  · refine ⟨{ server.ioDataPool with list := server.ioDataPool.list ++ [data] },
      server.ioDataPosted.eraseP fun other => other.id == data.id, [],
      by rw [Server.releaseOverlappedData, hfound]; simp only [hfree]; rfl, ?_, rfl, fun _ => ?_⟩
    · rw [herase, List.map_append]
      exact h.giveBack
    · rw [ObjectPool.size, List.length_append]
      exact hroom
  · refine ⟨server.ioDataPool, server.ioDataPosted.eraseP fun other => other.id == data.id,
      data.acceptSocket.toList.map .closed, by rw [Server.releaseOverlappedData, hfound]; simp only [hfree]; rfl, ?_, rfl, id⟩
    rw [herase]
    exact h.discard

/-! ## Every step -/

/-- Who holds what, when the thread `i` moves on. -/
theorem count_threads {i : Nat} {pc : ThreadPc} (hpc : server.eventThreads[i]? = some pc)
    (pc' : ThreadPc) (r : Nat) :
    pc.ioData.toList.count r + ((server.eventThreads.set i pc').filterMap ThreadPc.ioData).count r =
      pc'.ioData.toList.count r + (server.eventThreads.filterMap ThreadPc.ioData).count r := by
  have hset := (hands_set ThreadPc.ioData hpc pc').count_eq r
  rwa [List.count_append, List.count_append] at hset

/-- The objects in the pool and those posted stay. -/
theorem Server.Owned.keep {server' : Server} (h : server.Owned) (hpool : server'.ioDataPool = server.ioDataPool)
    (hposted : server'.posted = server.posted) (hmade : server'.made = server.made)
    (hholders : ∀ r, server'.holders.count r = server.holders.count r) : server'.Owned := by
  refine ⟨?_, by rw [hpool]; exact h.capacity, by rw [hpool]; exact h.size⟩
  rw [Server.pooled, hpool, hposted, hmade]
  exact h.owned.handOver (List.perm_iff_count.mpr hholders)

/-- An object comes out of the pool, or is made. -/
theorem Server.Owned.create {server' created : Server} {ioData : Nat} (h : server.Owned)
    (operation : SocketOperation)
    (acceptedSock : Option Nat) (hcreated : server.createOverlappedData operation acceptedSock = (created, ioData))
    (hpool : server'.ioDataPool = created.ioDataPool) (hposted : server'.ioDataPosted = created.ioDataPosted)
    (hmade : server'.made = created.made)
    (hholders : ∀ r, server'.holders.count r = [ioData].count r + server.holders.count r) : server'.Owned := by
  obtain ⟨ioDataPool, ioDataPosted, made, data, heq, howned, hcapacity, hsize⟩ :=
    createOverlappedData_spec operation acceptedSock h.owned
  cases hcreated.symm.trans heq
  refine ⟨?_, ?_, ?_⟩
  · rw [Server.pooled, Server.posted, hpool, hposted, hmade]
    refine howned.handOver (List.perm_iff_count.mpr fun r => ?_)
    rw [hholders, ← List.count_append]
    rfl
  · rw [hpool]
    exact hcapacity.trans h.capacity
  · rw [hpool]
    exact Nat.le_trans hsize h.size

/-- An object goes back to the pool, or is destroyed. -/
theorem Server.Owned.release {server' released : Server} {ioData : Nat} {events : List Event} (h : server.Owned)
    (hreleased : server.releaseOverlappedData ioData = (released, events))
    (hpool : server'.ioDataPool = released.ioDataPool) (hposted : server'.ioDataPosted = released.ioDataPosted)
    (hmade : server'.made = released.made)
    (hholders : ∀ r, [ioData].count r + server'.holders.count r = server.holders.count r) : server'.Owned := by
  have hheld : Custody.Owned server.made server.pooled server.posted (ioData :: server'.holders) := by
    refine h.owned.handOver (List.perm_iff_count.mpr fun r => ?_)
    rw [← hholders, ← List.count_append]
    rfl
  obtain ⟨ioDataPool, ioDataPosted, data, heq, howned, hcapacity, hsize⟩ := releaseOverlappedData_spec hheld
  cases hreleased.symm.trans heq
  refine ⟨?_, ?_, ?_⟩
  · rw [Server.pooled, Server.posted, hpool, hposted, hmade]
    exact howned
  · rw [hpool]
    exact hcapacity.trans h.capacity
  · rw [hpool]
    have hle := hsize (by rw [h.capacity]; exact h.size)
    rw [h.capacity] at hle
    exact hle

/-- The thread `i` moves on with what it holds. -/
theorem Server.Owned.move {server' : Server} {i : Nat} {pc pc' : ThreadPc} (h : server.Owned)
    (hpc : server.eventThreads[i]? = some pc) (hthreads : server'.eventThreads = server.eventThreads.set i pc')
    (hdata : pc'.ioData = pc.ioData) (hpool : server'.ioDataPool = server.ioDataPool)
    (hposted : server'.posted = server.posted) (hmade : server'.made = server.made)
    (hmain : server'.main = server.main)
    (hpending : server'.pending = server.pending) (hlost : server'.lost = server.lost) : server'.Owned := by
  refine h.keep hpool hposted hmade fun r => ?_
  have hset := count_threads hpc pc' r
  rw [hdata] at hset
  simp only [Server.holders, Server.held, List.count_append, hthreads, hmain, hpending, hlost]
  omega

theorem posted_init (server : Server) (data : Nat) (operation : SocketOperation) :
    (server.initOverlappedData data operation).posted = server.posted := by
  rw [Server.posted, Server.posted, Server.initOverlappedData, List.map_map]
  refine List.map_congr_left fun other _ => ?_
  rw [Function.comp_apply]
  split
  next hid => exact hid.symm
  next => rfl

/-- What is posted, the system has, or nobody. -/
theorem count_post (server : Server) (operation : SocketOperation) (ioData : Nat) (client : Option Nat) (ok : Bool)
    (r : Nat) :
    ((server.post operation ioData client ok).pending.map Operation.ioData).count r +
        (server.post operation ioData client ok).lost.count r =
      [ioData].count r + ((server.pending.map Operation.ioData).count r + server.lost.count r) := by
  cases ok with
  | true =>
    rw [Server.post, if_pos rfl]
    simp only [List.map_append, List.map_cons, List.map_nil, List.count_append]
    omega
  | false =>
    rw [Server.post, if_neg Bool.false_ne_true]
    simp only [List.count_append]
    omega

theorem post_pool (server : Server) (operation : SocketOperation) (ioData : Nat) (client : Option Nat) (ok : Bool) :
    (server.post operation ioData client ok).ioDataPool = server.ioDataPool ∧
      (server.post operation ioData client ok).ioDataPosted = server.ioDataPosted ∧
      (server.post operation ioData client ok).made = server.made ∧
      (server.post operation ioData client ok).eventThreads = server.eventThreads ∧
      (server.post operation ioData client ok).main = server.main := by
  cases ok <;> exact ⟨rfl, rfl, rfl, rfl, rfl⟩

/-- Nothing changes hands in `createOverlappedData`. -/
theorem createOverlappedData_frame (server : Server) (operation : SocketOperation) (acceptedSock : Option Nat) :
    (server.createOverlappedData operation acceptedSock).1.eventThreads = server.eventThreads ∧
      (server.createOverlappedData operation acceptedSock).1.main = server.main ∧
      (server.createOverlappedData operation acceptedSock).1.pending = server.pending ∧
      (server.createOverlappedData operation acceptedSock).1.lost = server.lost := ⟨rfl, rfl, rfl, rfl⟩

theorem releaseOverlappedData_frame (server : Server) (data : Nat) :
    (server.releaseOverlappedData data).1.eventThreads = server.eventThreads ∧
      (server.releaseOverlappedData data).1.main = server.main ∧
      (server.releaseOverlappedData data).1.pending = server.pending ∧
      (server.releaseOverlappedData data).1.lost = server.lost ∧
      (server.releaseOverlappedData data).1.clients = server.clients ∧
      (server.releaseOverlappedData data).1.added = server.added := by
  unfold Server.releaseOverlappedData
  cases server.findPosted data <;> exact ⟨rfl, rfl, rfl, rfl, rfl, rfl⟩

theorem Server.Owned.opened (h : server.Owned) : ({ server with sockets := server.sockets + 1 } : Server).Owned :=
  ⟨h.owned, h.capacity, h.size⟩

section Threads

variable {server' : Server} {events : List Event} {i ioData : Nat} {ok : Bool}

/-- A thread posts a `WSARecv` with the buffer that it holds, or has it refused: then the buffer is lost. -/
theorem Server.Owned.receiving {client : Nat} {accepting : Bool} (h : server.Owned)
    (hpc : server.eventThreads[i]? = some (.receiving ioData client accepting))
    (hstep : threadStep server i ok (.receiving ioData client accepting) = some (server', events)) :
    server'.Owned := by
  have hcount := count_threads hpc
  cases hstep
  obtain ⟨hpool, hposted, hmade, hthreads, hmain⟩ :=
    post_pool (server.initOverlappedData ioData .RECEIVE) .RECEIVE ioData (some client) ok
  refine h.keep hpool ?_ hmade fun r => ?_
  · exact (congrArg (List.map OverlappedData.id) hposted).trans (posted_init server ioData .RECEIVE)
  · have hset := hcount (if accepting then .posting else .waiting) r
    have hpost := count_post (server.initOverlappedData ioData .RECEIVE) .RECEIVE ioData (some client) ok r
    have hnone : (if accepting then ThreadPc.posting else .waiting).ioData = none := by cases accepting <;> rfl
    simp only [hnone, Option.toList_none, List.count_nil] at hset
    simp only [Server.holders, Server.held, Server.setThread, List.count_append, hthreads, hmain] at hset hpost ⊢
    simp only [ThreadPc.ioData, Option.toList_some] at hset
    simp only [Server.initOverlappedData] at hset hpost ⊢
    omega

theorem Server.Owned.releasing {after : After} (h : server.Owned)
    (hpc : server.eventThreads[i]? = some (.releasing ioData after))
    (hstep : threadStep server i ok (.releasing ioData after) = some (server', events)) : server'.Owned := by
  have hcount := count_threads hpc
  have hserver : (server.releaseOverlappedData ioData).1.setThread i after.pc = server' :=
    congrArg Prod.fst (Option.some.inj hstep)
  subst hserver
  obtain ⟨hthreads, hmain, hpending, hlost, -⟩ := releaseOverlappedData_frame server ioData
  refine h.release rfl rfl rfl rfl fun r => ?_
  have hset := hcount after.pc r
  have hnone : after.pc.ioData = none := by cases after <;> rfl
  rw [hnone] at hset
  simp only [Server.holders, Server.held, Server.setThread, List.count_append, hthreads, hmain, hpending, hlost]
  simp only [ThreadPc.ioData, Option.toList_some, Option.toList_none, List.count_nil] at hset
  omega

/-- `postAcceptEx` takes a buffer from the pool, or makes one. -/
theorem Server.Owned.posting (h : server.Owned) (hpc : server.eventThreads[i]? = some .posting)
    (hstep : threadStep server i ok .posting = some (server', events)) : server'.Owned := by
  have hcount := count_threads hpc
  have hserver : server.openAccept.1.setThread i (.acceptEx server.openAccept.2) = server' :=
    congrArg Prod.fst (Option.some.inj hstep)
  subst hserver
  have hcreated : ({ server with sockets := server.sockets + 1 } : Server).createOverlappedData .ACCEPT
      (some server.sockets) = (server.openAccept.1, server.openAccept.2) := rfl
  refine h.opened.create .ACCEPT (some server.sockets) hcreated rfl rfl rfl fun r => ?_
  obtain ⟨hthreads, hmain, hpending, hlost⟩ := createOverlappedData_frame
    { server with sockets := server.sockets + 1 } .ACCEPT (some server.sockets)
  have hset := hcount (.acceptEx server.openAccept.2) r
  simp only [Server.holders, Server.held, Server.setThread, List.count_append, Server.openAccept, hthreads,
    hmain, hpending, hlost]
  simp only [ThreadPc.ioData, Option.toList_some, Option.toList_none, List.count_nil, Server.openAccept] at hset
  omega

theorem Server.Owned.acceptEx (h : server.Owned) (hpc : server.eventThreads[i]? = some (.acceptEx ioData))
    (hstep : threadStep server i ok (.acceptEx ioData) = some (server', events)) : server'.Owned := by
  have hcount := count_threads hpc
  cases hstep
  obtain ⟨hpool, hposted, hmade, hthreads, hmain⟩ := post_pool server .ACCEPT ioData none ok
  refine h.keep hpool (congrArg (List.map OverlappedData.id) hposted) hmade fun r => ?_
  have hset := hcount .waiting r
  have hpost := count_post server .ACCEPT ioData none ok r
  simp only [Server.holders, Server.held, Server.setThread, List.count_append, hthreads, hmain, ThreadPc.ioData, Option.toList_some,
    Option.toList_none, List.count_nil] at hset hpost ⊢
  omega

theorem threadStep_owned {pc : ThreadPc} (h : server.Owned)
    (hpc : server.eventThreads[i]? = some pc) (hstep : threadStep server i ok pc = some (server', events)) :
    server'.Owned := by
  cases pc with
  | waiting => cases hstep
  | exited => cases hstep
  | closing ioData client =>
    cases hstep
    exact h.move hpc rfl rfl rfl rfl rfl rfl rfl rfl
  | accepted ioData =>
    cases hstep
    refine h.move hpc rfl ?_ rfl rfl rfl rfl rfl rfl
    cases ok <;> rfl
  | adding ioData =>
    unfold threadStep at hstep
    dsimp only at hstep
    cases hdata : server.findPosted ioData with
    | none =>
      rw [hdata] at hstep
      cases hstep
    | some data =>
      rw [hdata] at hstep
      cases hstep
      exact h.move hpc rfl rfl rfl rfl rfl rfl rfl rfl
  | checking ioData client =>
    unfold threadStep at hstep
    dsimp only at hstep
    cases hfound : server.findClient client with
    | none =>
      rw [hfound] at hstep
      cases hstep
    | some found =>
      rw [hfound] at hstep
      cases hstep
      refine h.move hpc rfl ?_ rfl rfl rfl rfl rfl rfl
      split <;> rfl
  | writing ioData client =>
    unfold threadStep at hstep
    dsimp only at hstep
    cases hdata : server.findPosted ioData with
    | none =>
      rw [hdata] at hstep
      cases hstep
    | some data =>
      rw [hdata] at hstep
      cases hstep
      exact h.move hpc rfl rfl rfl rfl rfl rfl rfl rfl
  | receiving ioData client accepting => exact h.receiving hpc hstep
  | refusing ioData =>
    unfold threadStep at hstep
    dsimp only at hstep
    cases hdata : server.findPosted ioData with
    | none =>
      rw [hdata] at hstep
      cases hstep
    | some data =>
      rw [hdata] at hstep
      cases hstep
      exact h.move hpc rfl rfl rfl rfl rfl rfl rfl rfl
  | releasing ioData after => exact h.releasing hpc hstep
  | posting => exact h.posting hpc hstep
  | acceptEx ioData => exact h.acceptEx hpc hstep

end Threads

/-- The main thread moves on with what it holds. -/
theorem Server.Owned.moveMain {server' : Server} (h : server.Owned)
    (hdata : server'.main.ioData = server.main.ioData)
    (hpool : server'.ioDataPool = server.ioDataPool) (hposted : server'.ioDataPosted = server.ioDataPosted)
    (hmade : server'.made = server.made)
    (hthreads : server'.eventThreads.filterMap ThreadPc.ioData = server.eventThreads.filterMap ThreadPc.ioData)
    (hpending : server'.pending = server.pending) (hlost : server'.lost = server.lost) : server'.Owned :=
  h.keep hpool (congrArg (List.map OverlappedData.id) hposted) hmade fun r => by
    simp only [Server.holders, Server.held, hthreads, hdata, hpending, hlost]

/-- The main thread posts what it holds. -/
theorem Server.Owned.postMain {server' : Server} {operation : SocketOperation} {ioData : Nat} {client : Option Nat}
    {ok : Bool} (h : server.Owned) (hheld : server.main.ioData = some ioData) (hnone : server'.main.ioData = none)
    (hserver : server' = { server.post operation ioData client ok with main := server'.main }) : server'.Owned := by
  obtain ⟨hpool, hposted, hmade, hthreads, -⟩ := post_pool server operation ioData client ok
  have hpost := count_post server operation ioData client ok
  generalize hposting : server.post operation ioData client ok =
    posting at hserver hpool hposted hmade hthreads hpost
  rw [hserver]
  refine h.keep hpool (congrArg (List.map OverlappedData.id) hposted) hmade fun r => ?_
  have hcount := hpost r
  simp only [Server.holders, Server.held, List.count_append, hthreads, hheld, hnone, Option.toList_some, Option.toList_none,
    List.count_nil]
  omega

/-- The main thread takes an object. -/
theorem Server.Owned.createMain {server' created : Server} {ioData : Nat} (h : server.Owned)
    (operation : SocketOperation)
    (acceptedSock : Option Nat) (hcreated : server.createOverlappedData operation acceptedSock = (created, ioData))
    (hnone : server.main.ioData = none) (hheld : server'.main.ioData = some ioData)
    (hserver : server' = { created with main := server'.main }) : server'.Owned := by
  obtain ⟨hthreads, -, hpending, hlost⟩ := createOverlappedData_frame server operation acceptedSock
  rw [show (server.createOverlappedData operation acceptedSock).1 =
    created by rw [hcreated]] at hthreads hpending hlost
  refine h.create operation acceptedSock hcreated (by rw [hserver]) (by rw [hserver]) (by rw [hserver]) fun r => ?_
  have hmain : server'.main.ioData.toList.count r = [ioData].count r := by rw [hheld]; rfl
  rw [hserver]
  simp only [Server.holders, Server.held, List.count_append, hthreads, hpending, hlost, hmain, hnone,
    Option.toList_none, List.count_nil]
  omega

theorem mainStep_owned {server' : Server} {events : List Event} {ok : Bool} (h : server.Owned)
    (hstep : mainStep server ok = some (server', events)) : server'.Owned := by
  unfold mainStep at hstep
  cases hmain : server.main with
  | idle =>
    rw [hmain] at hstep
    cases hstep
  | listening i =>
    rw [hmain] at hstep
    dsimp only at hstep
    split at hstep
    · have hserver : ({ server.openAccept.1 with main := .acceptEx server.openAccept.2 i } : Server) = server' :=
        congrArg Prod.fst (Option.some.inj hstep)
      subst hserver
      have hnone : ({ server with sockets := server.sockets + 1 } : Server).main.ioData = none := by rw [hmain]; rfl
      have hcreated : ({ server with sockets := server.sockets + 1 } : Server).createOverlappedData .ACCEPT
          (some server.sockets) = (server.openAccept.1, server.openAccept.2) := rfl
      exact h.opened.createMain .ACCEPT (some server.sockets) hcreated hnone rfl rfl
    · cases hstep
      exact h.moveMain (by rw [hmain]; rfl) rfl rfl rfl rfl rfl rfl
  | acceptEx ioData i =>
    rw [hmain] at hstep
    cases hstep
    exact h.postMain (by rw [hmain]; rfl) rfl rfl
  | sending ioData client =>
    rw [hmain] at hstep
    cases hstep
    exact h.postMain (by rw [hmain]; rfl) rfl rfl
  | stopping i =>
    rw [hmain] at hstep
    dsimp only at hstep
    split at hstep
    · have hserver : ({ (server.createOverlappedData .CLOSE_SERVER none).1 with
          main := .closing (server.createOverlappedData .CLOSE_SERVER none).2 i } : Server) = server' :=
        congrArg Prod.fst (Option.some.inj hstep)
      subst hserver
      exact h.createMain .CLOSE_SERVER none rfl (by rw [hmain]; rfl) rfl rfl
    · cases hstep
      exact h.moveMain (by rw [hmain]; rfl) rfl rfl rfl rfl rfl rfl
  | closing ioData i =>
    rw [hmain] at hstep
    cases hstep
    exact h.postMain (by rw [hmain]; rfl) rfl rfl
  | joining =>
    rw [hmain] at hstep
    dsimp only at hstep
    split at hstep
    next hexited =>
      cases hstep
      refine h.moveMain (by rw [hmain]; rfl) rfl rfl rfl ?_ rfl rfl
      refine (List.filterMap_eq_nil_iff.mpr fun pc hpc => ?_).symm
      rw [hexited pc hpc]
      rfl
    next => cases hstep

/-- A thread that is told of an operation has its object. -/
theorem dispatch_ioData {data : OverlappedData} {client : Option Nat} {completion : Completion} {pc : ThreadPc}
    (h : dispatch data client completion = some pc) : pc.ioData = some data.id := by
  have hclosing : client.map (ThreadPc.closing data.id) = some pc → pc.ioData = some data.id := by
    intro hmap
    obtain ⟨found, -, rfl⟩ := Option.map_eq_some_iff.mp hmap
    rfl
  cases completion with
  | failed aborted =>
    cases aborted with
    | true =>
      cases h
      rfl
    | false => exact hclosing h
  | transferred bytes =>
    unfold dispatch at h
    dsimp only at h
    cases hoperation : data.operationType with
    | ACCEPT =>
      rw [hoperation] at h
      cases h
      rfl
    | RECEIVE =>
      rw [hoperation] at h
      dsimp only at h
      split at h
      · exact hclosing h
      · obtain ⟨found, -, rfl⟩ := Option.map_eq_some_iff.mp h
        rfl
    | SEND =>
      rw [hoperation] at h
      dsimp only at h
      split at h
      · exact hclosing h
      · cases h
        rfl
    | CLOSE_SERVER =>
      rw [hoperation] at h
      cases h
      rfl

theorem posted_fill (server : Server) (operation : Operation) (completion : Completion) :
    (server.fill operation completion).posted = server.posted := by
  unfold Server.fill
  cases completion with
  | failed aborted => rfl
  | transferred bytes =>
    dsimp only
    split
    · rw [Server.posted, Server.posted, List.map_map]
      refine List.map_congr_left fun other _ => ?_
      rw [Function.comp_apply]
      split <;> rfl
    · rfl

theorem fill_frame (server : Server) (operation : Operation) (completion : Completion) :
    (server.fill operation completion).ioDataPool = server.ioDataPool ∧
      (server.fill operation completion).made = server.made ∧
      (server.fill operation completion).eventThreads = server.eventThreads ∧
      (server.fill operation completion).main = server.main ∧
      (server.fill operation completion).lost = server.lost := by
  unfold Server.fill
  cases completion with
  | failed aborted => exact ⟨rfl, rfl, rfl, rfl, rfl⟩
  | transferred bytes =>
    dsimp only
    split <;> exact ⟨rfl, rfl, rfl, rfl, rfl⟩

theorem count_eraseIdx {pending : List Operation} {k : Nat} {operation : Operation}
    (h : pending[k]? = some operation) (r : Nat) : (pending.map Operation.ioData).count r =
      [operation.ioData].count r + ((pending.eraseIdx k).map Operation.ioData).count r := by
  obtain ⟨hlt, rfl⟩ := List.getElem?_eq_some_iff.mp h
  rw [← ((List.getElem_cons_eraseIdx_perm hlt).map Operation.ioData).count_eq r, List.map_cons, List.count_cons,
    List.count_singleton]
  omega

/-- A completion hands its buffer to the thread that takes it. -/
theorem dequeue_owned {server' : Server} {events : List Event} {i k : Nat} {completion : Completion}
    (h : server.Owned)
    (hstep : step server (.dequeue i k completion) = some (server', events)) : server'.Owned := by
  unfold step at hstep
  dsimp only at hstep
  split at hstep
  next operation hthread hpending =>
    split at hstep
    next => cases hstep
    next =>
      split at hstep
      next => cases hstep
      next data hdata =>
        obtain ⟨pc, hpc, heq⟩ := Option.map_eq_some_iff.mp hstep
        have hserver := congrArg Prod.fst heq
        dsimp only at hserver
        subst hserver
        have hid : (data.id == operation.ioData) = true :=
          List.find?_some (p := fun other : OverlappedData => other.id == operation.ioData) hdata
        obtain ⟨hpool, hmade, hthreads, hmain, hlost⟩ := fill_frame server operation completion
        refine h.keep hpool (posted_fill server operation completion) hmade fun r => ?_
        have hset := count_threads hthread pc r
        have herase := count_eraseIdx hpending r
        rw [dispatch_ioData hpc, eq_of_beq hid] at hset
        simp only [Server.holders, Server.held, Server.setThread, List.count_append, hthreads, hmain, hlost]
        simp only [ThreadPc.ioData, Option.toList_none, List.count_nil, Option.toList_some] at hset
        omega
  next => cases hstep

theorem step_owned {server' : Server} {events : List Event} {action : Action} (h : server.Owned)
    (hstep : step server action = some (server', events)) : server'.Owned := by
  unfold step at hstep
  dsimp only at hstep
  cases action with
  | startListen hardware_concurrency =>
    dsimp only at hstep
    split at hstep
    next hidle =>
      cases hstep
      refine h.moveMain (by rw [hidle.1]; rfl) rfl rfl rfl ?_ rfl rfl
      rw [hidle.2, List.filterMap_replicate]
      rfl
    next => cases hstep
  | dequeue i k completion => exact dequeue_owned h hstep
  | thread i ok =>
    obtain ⟨pc, hpc, hthread⟩ := Option.bind_eq_some_iff.mp hstep
    exact threadStep_owned h hpc hthread
  | main ok => exact mainStep_owned h hstep
  | flushClient client =>
    dsimp only at hstep
    split at hstep
    next hidle hfound =>
      split at hstep
      next => cases hstep
      next =>
        have hserver : ({ (server.createOverlappedData .SEND none).1 with
            main := .sending (server.createOverlappedData .SEND none).2 client } : Server) = server' :=
          congrArg Prod.fst (Option.some.inj hstep)
        subst hserver
        exact h.createMain .SEND none rfl (by rw [hidle]; rfl) rfl rfl
    next => cases hstep
  | kickClient client =>
    dsimp only at hstep
    split at hstep
    next =>
      split at hstep
      next => cases hstep
      next =>
        cases hstep
        exact h.moveMain rfl rfl rfl rfl rfl rfl rfl
    next => cases hstep
  | destroyClient client =>
    dsimp only at hstep
    split at hstep
    next =>
      split at hstep
      next => cases hstep
      next =>
        cases hstep
        exact h.moveMain rfl rfl rfl rfl rfl rfl rfl
    next => cases hstep
  | cleanup =>
    dsimp only at hstep
    split at hstep
    next hidle =>
      cases hstep
      exact h.moveMain (by rw [hidle]; rfl) rfl rfl rfl rfl rfl rfl
    next => cases hstep

/-! ## What is lost -/

/-- A call of it may fail at once. -/
def Action.fails : Action → Bool
  | .thread _ ok | .main ok => !ok
  | _ => false

theorem post_lost (server : Server) (operation : SocketOperation) (ioData : Nat) (client : Option Nat) (ok : Bool) :
    (server.post operation ioData client ok).lost.length = server.lost.length + if !ok then 1 else 0 := by
  cases ok with
  | true => rfl
  | false => exact List.length_append

theorem threadStep_lost {server' : Server} {events : List Event} {i : Nat} {pc : ThreadPc} {ok : Bool}
    (hstep : threadStep server i ok pc = some (server', events)) :
    server'.lost.length ≤ server.lost.length + if !ok then 1 else 0 := by
  cases pc with
  | waiting => cases hstep
  | exited => cases hstep
  | closing | accepted | posting =>
    cases hstep
    exact Nat.le_add_right _ _
  | adding ioData | writing ioData | refusing ioData =>
    unfold threadStep at hstep
    dsimp only at hstep
    cases hdata : server.findPosted ioData with
    | none =>
      rw [hdata] at hstep
      cases hstep
    | some data =>
      rw [hdata] at hstep
      cases hstep
      exact Nat.le_add_right _ _
  | checking ioData client =>
    unfold threadStep at hstep
    dsimp only at hstep
    cases hfound : server.findClient client with
    | none =>
      rw [hfound] at hstep
      cases hstep
    | some found =>
      rw [hfound] at hstep
      cases hstep
      exact Nat.le_add_right _ _
  | receiving ioData client =>
    cases hstep
    exact Nat.le_of_eq (post_lost (server.initOverlappedData ioData .RECEIVE) .RECEIVE ioData (some client) ok)
  | acceptEx ioData =>
    cases hstep
    exact Nat.le_of_eq (post_lost server .ACCEPT ioData none ok)
  | releasing ioData after =>
    have hserver : (server.releaseOverlappedData ioData).1.setThread i after.pc = server' :=
      congrArg Prod.fst (Option.some.inj hstep)
    have hlost : server'.lost = server.lost := by
      rw [← hserver]
      exact (releaseOverlappedData_frame server ioData).2.2.2.1
    rw [hlost]
    exact Nat.le_add_right _ _

theorem mainStep_lost {server' : Server} {events : List Event} {ok : Bool}
    (hstep : mainStep server ok = some (server', events)) :
    server'.lost.length ≤ server.lost.length + if !ok then 1 else 0 := by
  unfold mainStep at hstep
  split at hstep
  · split at hstep
    · cases hstep
      exact Nat.le_add_right _ _
    · cases hstep
      exact Nat.le_add_right _ _
  · cases hstep
    exact Nat.le_of_eq (post_lost server ..)
  · cases hstep
    exact Nat.le_of_eq (post_lost server ..)
  · split at hstep
    · cases hstep
      exact Nat.le_add_right _ _
    · cases hstep
      exact Nat.le_add_right _ _
  · cases hstep
    exact Nat.le_add_right _ _
  · split at hstep
    · cases hstep
      exact Nat.le_add_right _ _
    · cases hstep
  · cases hstep

theorem step_lost {server' : Server} {events : List Event} {action : Action}
    (hstep : step server action = some (server', events)) :
    server'.lost.length ≤ server.lost.length + if action.fails then 1 else 0 := by
  unfold step at hstep
  dsimp only at hstep
  cases action with
  | thread i ok =>
    obtain ⟨pc, -, hthread⟩ := Option.bind_eq_some_iff.mp hstep
    exact threadStep_lost hthread
  | main ok => exact mainStep_lost hstep
  | dequeue i k completion =>
    dsimp only at hstep
    split at hstep
    next operation hthread hpending =>
      split at hstep
      next => cases hstep
      next =>
        split at hstep
        next => cases hstep
        next data hdata =>
          obtain ⟨pc, -, heq⟩ := Option.map_eq_some_iff.mp hstep
          have hserver := congrArg Prod.fst heq
          dsimp only at hserver
          subst hserver
          exact Nat.le_trans (Nat.le_of_eq (congrArg List.length (fill_frame server operation completion).2.2.2.2))
            (Nat.le_add_right _ _)
    next => cases hstep
  | startListen | cleanup =>
    dsimp only at hstep
    split at hstep
    · cases hstep
      exact Nat.le_add_right _ _
    · cases hstep
  | flushClient client | kickClient client | destroyClient client =>
    dsimp only at hstep
    split at hstep
    · split at hstep
      · cases hstep
      · cases hstep
        exact Nat.le_add_right _ _
    · cases hstep

theorem run_lost {actions : List Action} {results : List (List Event)}
    (hrun : runOps step Server.new actions = some (server, results)) :
    server.lost.length ≤ actions.countP Action.fails := by
  refine runOps_inv (fun server actions _ => server.lost.length ≤
    actions.countP Action.fails) ?_ (Nat.le_refl 0) hrun
  intro server actions _ action server' _ h hstep
  have hlost := step_lost hstep
  rw [List.countP_append, List.countP_singleton]
  omega

theorem run_owned {actions : List Action} {results : List (List Event)}
    (hrun : runOps step Server.new actions = some (server, results)) : server.Owned :=
  runOps_inv (fun server _ _ => server.Owned) (fun _ _ _ _ _ _ h hstep => step_owned h hstep) new_owned hrun

/-- **No object is used twice.**  Whatever the threads and the system do, an object is either in the pool, or
posted; one that is posted has one thread or one operation, or it was lost, in a call that failed at once.  So
the system never works in an object that is in the pool, and where no call fails nothing is lost. -/
theorem buffers_owned (actions : List Action) (server : Server) (results : List (List Event))
    (hrun : runOps step Server.new actions = some (server, results)) :
    (server.pooled ++ server.posted).Nodup ∧ server.posted.Perm (server.held ++ server.lost) ∧
      server.lost.length ≤ actions.countP Action.fails ∧
      (∀ operation ∈ server.pending, operation.ioData ∈ server.posted ∧ operation.ioData ∉ server.pooled) ∧
      server.ioDataPool.size ≤ 2000 := by
  have h := run_owned hrun
  refine ⟨h.owned.nodup, h.owned.held, run_lost hrun, fun operation hoperation => ?_, h.size⟩
  have hheld : operation.ioData ∈ server.holders := by
    rw [Server.holders, Server.held]
    exact List.mem_append_left _ (List.mem_append_right _ (List.mem_map_of_mem hoperation))
  exact ⟨h.owned.held.mem_iff.mpr hheld, fun hpooled => h.owned.apart hpooled hheld⟩

/-- Two are accepted, and the first one sends. -/
def receiving : List Action :=
  [.startListen 2, .main true, .main true, .main true, .main true, .dequeue 0 0 (.transferred []), .dequeue 1 0 (.transferred []),
    .thread 0 true, .thread 1 true, .thread 1 true, .thread 0 true, .thread 1 true, .thread 0 true, .thread 1 true,
    .thread 1 true, .dequeue 1 0 (.transferred [7, 8]), .thread 1 true, .thread 1 true]

theorem receiving_defined : (runOps step Server.new receiving).isSome := by decide +kernel

theorem buffers_owned_receiving :
    ∃ server results, runOps step Server.new receiving = some (server, results) ∧
      (server.pooled ++ server.posted).Nodup ∧ server.posted.Perm (server.held ++ server.lost) ∧
      server.lost.length ≤ receiving.countP Action.fails ∧
      (∀ operation ∈ server.pending, operation.ioData ∈ server.posted ∧ operation.ioData ∉ server.pooled) ∧
      server.ioDataPool.size ≤ 2000 :=
  have h := (Option.some_get receiving_defined).symm
  ⟨_, _, h, buffers_owned _ _ _ h⟩

end Libws.Network.Windows
