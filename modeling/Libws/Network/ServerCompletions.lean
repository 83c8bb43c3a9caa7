import Libws.Network.ServerHands

/-!
# What the threads are told on Windows

Any of the threads may get any completion.  What it is told then is about the call that was posted, although the
`OverlappedData` are used again and again.

* `Inv.closing` … `Inv.acceptEx`, `threadStep_inv`, `mainStep_inv`, `step_inv` — what every step keeps;
* `dispatch_cases` — what a thread goes on to do with a completion;
* `posted_as` — **in every run** a completion is dealt with as what was posted;
* `received_in_order` — **in every run** one thread at most receives for a client, and nothing is lost, written
  twice or in another order, but for what comes when the client is closing;
* `joining_next` — what goes on while `cleanup` waits;
* `cleanup_never_stuck` — `cleanup` stops every thread, and nothing else stops one.
-/

set_option autoImplicit false

namespace Libws.Network.Windows

open Libws.Core Libws.Custody Libws.Machine

variable {server server' : Server} {out : List (List Event)}

/-- A thread that has no operation in mind. -/
theorem typed_none {hand : Hand} (h : hand.operationType = none) : server.Typed hand := by
  intro ioData operation _ hoperation
  rw [h] at hoperation
  cases hoperation

theorem typed_thread {pc : ThreadPc} (h : (Hand.thread pc).operationType = none) :
    ∀ hand ∈ [Hand.thread pc], server.Typed hand := fun hand hhand => by
  cases List.mem_singleton.mp hhand
  exact typed_none h

/-- Sockets are closed, and no bytes come or go. -/
theorem closed_bytes (sockets : List Nat) (client : Nat) :
    (sockets.map Event.closed).flatMap (Event.toldBytes client) = [] ∧
    (sockets.map Event.closed).flatMap (Event.writtenBytes client) = [] := by
  constructor <;>
    · rw [List.flatMap_map]
      exact List.flatMap_eq_nil_iff.mpr fun _ _ => rfl

theorem releaseOverlappedData_events (server : Server) (data : Nat) :
    ∃ sockets : List Nat, (server.releaseOverlappedData data).2 = sockets.map .closed := by
  unfold Server.releaseOverlappedData
  cases server.findPosted data with
  | none => exact ⟨[], rfl⟩
  | some ioData => exact ⟨_, rfl⟩

/-- A thread calls `WSARecv`. -/
theorem Inv.receiving {i ioData client : Nat} {accepting ok : Bool} {pc' : ThreadPc} (h : Inv server out)
    (hpc : server.eventThreads[i]? = some (.receiving ioData client accepting))
    (hnext : pc' = .posting ∨ pc' = .waiting)
    (howned : server'.Owned)
    (hserver : ((server.initOverlappedData ioData .RECEIVE).post .RECEIVE ioData (some client) ok).setThread i pc' = server') :
    Inv server' (out ++ [[]]) := by
  obtain ⟨rest, hgone, -⟩ := hands_thread hpc
  have hmem : Hand.thread (.receiving ioData client accepting) ∈ server.hands :=
    hgone.mem_iff.mpr (List.mem_cons_self ..)
  have hone : (Hand.thread (.receiving ioData client accepting)).phase client = some .ready := if_pos rfl
  have hbytes := (h.chain client).ready ((h.chain client).others hgone hone).2
  have habout := h.known _ hmem client rfl
  obtain ⟨data, hdata, -⟩ := h.owned.findPosted hmem (show _ = some ioData from rfl)
  have hfind : ∀ other found, (ThreadPc.receiving ioData client accepting).ioData ≠ some other →
      server.findPosted other = some found →
      (server.initOverlappedData ioData .RECEIVE).findPosted other = some found := fun other found hother hfound =>
    findPosted_init_other .RECEIVE (fun hsame => hother (congrArg some hsame.symm)) hfound
  obtain ⟨htype, hphase, hcloses, hclient⟩ : (Hand.thread pc').operationType = none ∧
      (∀ other, (Hand.thread pc').phase other = none) ∧ (Hand.thread pc').closes = false ∧
      (Hand.thread pc').client = none := by
    rcases hnext with rfl | rfl <;> exact ⟨rfl, fun _ => rfl, rfl, rfl⟩
  subst hserver
  cases ok with
  | false =>
    refine h.about_thread [] client howned hpc rfl rfl (List.append_nil _).symm hfind (typed_thread htype)
      (Or.inl ⟨_, hone⟩) (fun hphases => ?_) (fun _ hother => if_neg hother)
      (fun other _ => List.filterMap_cons_none (hphase other)) (fun _ => rfl)
        (fun _ _ => rfl) ?_ (fun hand hhand other hother => ?_)
      habout (fun _ => id) (Nat.le_refl _) h.ids
    · refine Server.Chain.of_ended (List.perm_nil.mp (hphases.trans (.of_eq (List.filterMap_cons_none (hphase client)))))
        (?_ : _ = _ ++ []) (fun hne => absurd rfl hne) habout
      rw [received_same rfl, written_same rfl, hbytes, List.append_nil]
    · exact List.countP_cons_of_neg (by rw [hcloses]; exact Bool.false_ne_true)
    · cases List.mem_singleton.mp hhand
      rw [hclient] at hother
      cases hother
  | true =>
    refine h.about_thread [⟨.RECEIVE, ioData, some client⟩] client howned hpc rfl rfl rfl hfind ?_
      (Or.inl ⟨_, hone⟩) (fun hphases => ?_) (fun _ hother => if_neg hother) (fun other hother => ?_) (fun _ => rfl)
      (fun _ _ => rfl) ?_ (fun hand hhand other hother => ?_) habout (fun _ => id) (Nat.le_refl _) h.ids
    · intro hand hhand other operation hother hoperation
      rcases List.mem_cons.mp hhand with rfl | hhand
      · rw [htype] at hoperation
        cases hoperation
      · cases List.mem_singleton.mp hhand
        cases hother
        cases hoperation
        exact ⟨_, findPosted_init .RECEIVE hdata, rfl⟩
    · rw [List.filterMap_cons_none (hphase client)] at hphases
      have hready := List.perm_singleton.mp (hphases.trans (.of_eq (phase_singleton (if_pos ⟨rfl, rfl⟩))))
      exact Server.Chain.of_ready hready (by rw [received_same rfl, written_same rfl, hbytes]) habout
    · rw [List.filterMap_cons_none (hphase other)]
      exact List.filterMap_cons_none (if_neg fun hsame => hother (Option.some.inj hsame.2))
    · exact List.countP_cons_of_neg (by rw [hcloses]; exact Bool.false_ne_true)
    · rcases List.mem_cons.mp hhand with rfl | hhand
      · rw [hclient] at hother
        cases hother
      · cases List.mem_singleton.mp hhand
        exact (Option.some.inj hother).symm

/-- A thread closes a client. -/
theorem Inv.closing {events : List Event} {i : Nat} {ioData client : Nat} {ok : Bool} (h : Inv server out)
    (hpc : server.eventThreads[i]? = some (.closing ioData client))
    (hstep : threadStep server i ok (.closing ioData client) = some (server', events)) :
    Inv server' (out ++ [events]) := by
  have howned := threadStep_owned h.owned hpc hstep
  have hnil : server.pending = server.pending ++ [] := (List.append_nil _).symm
  cases hstep
  refine h.quiet_thread [] howned hpc rfl rfl hnil (fun _ _ _ hfound => hfound) (typed_thread rfl) (fun _ => rfl)
    (fun _ => rfl) (fun _ => rfl) (fun _ => rfl) rfl (List.nil_subset _) (fun _ => closing_close client) rfl ?_
  exact ids_map (fun other => by split <;> rfl) server.clients

/-- A thread counts the clients. -/
theorem Inv.accepted {events : List Event} {i : Nat} {ioData : Nat} {ok : Bool} (h : Inv server out)
    (hpc : server.eventThreads[i]? = some (.accepted ioData))
    (hstep : threadStep server i ok (.accepted ioData) = some (server', events)) :
    Inv server' (out ++ [events]) := by
  have howned := threadStep_owned h.owned hpc hstep
  have hnil : server.pending = server.pending ++ [] := (List.append_nil _).symm
  cases hstep
  cases ok <;>
    exact h.quiet_thread [] howned hpc rfl rfl hnil (fun _ _ _ hfound => hfound) (typed_thread rfl) (fun _ => rfl)
      (fun _ => rfl) (fun _ => rfl) (fun _ => rfl) rfl (List.nil_subset _) (fun _ => id) rfl rfl

/-- A client is added, and is ready to receive. -/
theorem Inv.adding {events : List Event} {i : Nat} {ioData : Nat} {ok : Bool} (h : Inv server out)
    (hpc : server.eventThreads[i]? = some (.adding ioData))
    (hstep : threadStep server i ok (.adding ioData) = some (server', events)) : Inv server' (out ++ [events]) := by
  have howned := threadStep_owned h.owned hpc hstep
  have hnil : server.pending = server.pending ++ [] := (List.append_nil _).symm
  unfold threadStep at hstep
  dsimp only at hstep
  cases hdata : server.findPosted ioData with
  | none =>
    rw [hdata] at hstep
    cases hstep
  | some data =>
    rw [hdata] at hstep
    cases hstep
    obtain ⟨hnil', hnone⟩ := (h.chain server.added).fresh (Nat.le_refl _)
    refine h.about_thread [] server.added howned hpc rfl rfl hnil (fun _ _ _ hfound => hfound) (typed_thread rfl)
      (Or.inr hnil') (fun hphases => ?_) (fun _ _ => rfl) (fun client hclient => ?_) (fun _ => rfl)
      (fun _ _ => rfl) rfl
      (fun hand hhand client hclient => ?_) (Nat.lt_succ_self _) (fun _ => closing_append rfl) (Nat.le_succ _) ?_
    · have hready := List.perm_singleton.mp (hphases.trans (.of_eq (phase_singleton (if_pos rfl))))
      refine Server.Chain.of_ready hready ?_ (Nat.lt_succ_self _)
      obtain ⟨bytes, hbytes, -⟩ := (h.chain server.added).ended hnil'
      rw [hnone] at hbytes
      rw [received_same rfl, written_same rfl, hnone]
      exact (List.append_eq_nil_iff.mp hbytes.symm).1.symm
    · exact List.filterMap_cons_none (if_neg hclient)
    · cases List.mem_singleton.mp hhand
      exact (Option.some.inj hclient).symm
    · rw [List.map_append, h.ids, List.range_succ]
      rfl

/-- A thread looks whether the client is closing. -/
theorem Inv.checking {events : List Event} {i : Nat} {ioData client : Nat} {ok : Bool} (h : Inv server out)
    (hpc : server.eventThreads[i]? = some (.checking ioData client))
    (hstep : threadStep server i ok (.checking ioData client) = some (server', events)) :
    Inv server' (out ++ [events]) := by
  have howned := threadStep_owned h.owned hpc hstep
  have hmem : Hand.thread (.checking ioData client) ∈ server.hands := by
    obtain ⟨rest, hgone, -⟩ := hands_thread hpc
    exact hgone.mem_iff.mpr (List.mem_cons_self ..)
  have hnil : server.pending = server.pending ++ [] := (List.append_nil _).symm
  obtain ⟨hone, hchunk⟩ : (Hand.thread (.checking ioData client)).phase client = some (.chunk ioData) ∧
      .chunk ioData ∈ server.phases client := by
    obtain ⟨rest, hgone, -⟩ := hands_thread hpc
    exact ⟨if_pos rfl, ((h.chain client).others hgone (if_pos rfl)).2⟩
  obtain ⟨data, hdata, hbytes⟩ := (h.chain client).chunk ioData hchunk
  have habout := h.known _ hmem client rfl
  unfold threadStep at hstep
  dsimp only at hstep
  cases hfound : server.findClient client with
  | none =>
    rw [hfound] at hstep
    cases hstep
  | some found =>
    rw [hfound] at hstep
    dsimp only at hstep
    cases hclosing : found.isClosing with
    | true =>
      rw [hclosing] at hstep
      cases hstep
      refine h.about_thread [] client howned hpc rfl rfl hnil (fun _ _ _ hfound => hfound) (typed_thread rfl)
        (Or.inl ⟨_, hone⟩) (fun hphases => ?_) (fun _ hclient => if_neg hclient) (fun _ _ => rfl) (fun _ => rfl)
        (fun _ _ => rfl) rfl (fun hand hhand other hclient => ?_) habout (fun _ => id) (Nat.le_refl _) h.ids
      · exact Server.Chain.of_ended (List.perm_nil.mp hphases)
          (by rw [received_same rfl, written_same rfl]; exact hbytes) (fun _ => ⟨found, hfound, hclosing⟩) habout
      · cases List.mem_singleton.mp hhand
        cases hclient
    | false =>
      rw [hclosing] at hstep
      cases hstep
      refine h.about_thread [] client howned hpc rfl rfl hnil (fun _ _ _ hfound => hfound) (typed_thread rfl)
        (Or.inl ⟨_, hone⟩) (fun hphases => ?_) (fun _ hclient => if_neg hclient)
        (fun _ hclient => List.filterMap_cons_none (if_neg hclient)) (fun _ => rfl) (fun _ _ => rfl) rfl
        (fun hand hhand other hclient => ?_) habout (fun _ => id) (Nat.le_refl _) h.ids
      · have hphase := List.perm_singleton.mp (hphases.trans (.of_eq (phase_singleton (if_pos rfl))))
        exact Server.Chain.of_chunk hphase hdata (by rw [received_same rfl, written_same rfl]; exact hbytes) habout
      · cases List.mem_singleton.mp hhand
        exact (Option.some.inj hclient).symm

/-- A thread writes what it was told of. -/
theorem Inv.writing {events : List Event} {i : Nat} {ioData client : Nat} {ok : Bool} (h : Inv server out)
    (hpc : server.eventThreads[i]? = some (.writing ioData client))
    (hstep : threadStep server i ok (.writing ioData client) = some (server', events)) :
    Inv server' (out ++ [events]) := by
  have howned := threadStep_owned h.owned hpc hstep
  have hmem : Hand.thread (.writing ioData client) ∈ server.hands := by
    obtain ⟨rest, hgone, -⟩ := hands_thread hpc
    exact hgone.mem_iff.mpr (List.mem_cons_self ..)
  have hnil : server.pending = server.pending ++ [] := (List.append_nil _).symm
  obtain ⟨hone, hchunk⟩ : (Hand.thread (.writing ioData client)).phase client = some (.chunk ioData) ∧
      .chunk ioData ∈ server.phases client := by
    obtain ⟨rest, hgone, -⟩ := hands_thread hpc
    exact ⟨if_pos rfl, ((h.chain client).others hgone (if_pos rfl)).2⟩
  obtain ⟨data, hdata, hbytes⟩ := (h.chain client).chunk ioData hchunk
  have habout := h.known _ hmem client rfl
  unfold threadStep at hstep
  dsimp only at hstep
  rw [hdata] at hstep
  cases hstep
  have htold : ∀ other, [Event.writeClientBuffer client data.buffer].flatMap (Event.toldBytes other) = [] :=
    fun _ => rfl
  refine h.about_thread [] client howned hpc rfl rfl hnil (fun _ _ _ hfound => hfound) (typed_thread rfl)
    (Or.inl ⟨_, hone⟩) (fun hphases => ?_) (fun _ hclient => if_neg hclient)
    (fun _ hclient => List.filterMap_cons_none (if_neg hclient)) htold (fun other hclient => ?_) rfl
    (fun hand hhand other hclient => ?_) habout (fun _ => id) (Nat.le_refl _) h.ids
  · have hready := List.perm_singleton.mp (hphases.trans (.of_eq (phase_singleton (if_pos rfl))))
    refine Server.Chain.of_ready hready ?_ habout
    rw [received_same (htold client), written_concat, hbytes]
    simp only [List.flatMap_cons, List.flatMap_nil, Event.writtenBytes, if_true, List.append_nil]
  · simp only [List.flatMap_cons, List.flatMap_nil, Event.writtenBytes, if_neg hclient, List.append_nil]
  · cases List.mem_singleton.mp hhand
    exact (Option.some.inj hclient).symm

/-- A socket is refused. -/
theorem Inv.refusing {events : List Event} {i : Nat} {ioData : Nat} {ok : Bool} (h : Inv server out)
    (hpc : server.eventThreads[i]? = some (.refusing ioData))
    (hstep : threadStep server i ok (.refusing ioData) = some (server', events)) :
    Inv server' (out ++ [events]) := by
  have howned := threadStep_owned h.owned hpc hstep
  have hnil : server.pending = server.pending ++ [] := (List.append_nil _).symm
  unfold threadStep at hstep
  dsimp only at hstep
  cases hdata : server.findPosted ioData with
  | none =>
    rw [hdata] at hstep
    cases hstep
  | some data =>
    rw [hdata] at hstep
    cases hstep
    refine h.quiet_thread [] howned hpc rfl rfl hnil (fun _ _ _ hfound => hfound) (typed_thread rfl) (fun _ => rfl)
      (fun _ => rfl) (fun _ => ?_) (fun _ => ?_) rfl (List.nil_subset _) (fun _ => id) rfl rfl
    all_goals cases data.acceptSocket <;> rfl

/-- An object is released. -/
theorem Inv.releasing {events : List Event} {i : Nat} {ioData : Nat} {after : After} {ok : Bool}
    (h : Inv server out) (hpc : server.eventThreads[i]? = some (.releasing ioData after))
    (hstep : threadStep server i ok (.releasing ioData after) = some (server', events)) :
    Inv server' (out ++ [events]) := by
  have howned := threadStep_owned h.owned hpc hstep
  have hnil : server.pending = server.pending ++ [] := (List.append_nil _).symm
  have hserver : (server.releaseOverlappedData ioData).1.setThread i after.pc = server' :=
    congrArg Prod.fst (Option.some.inj hstep)
  have hevents : (server.releaseOverlappedData ioData).2 = events := congrArg Prod.snd (Option.some.inj hstep)
  obtain ⟨hthreads, hmain, hpending, -, hclients, hadded⟩ := releaseOverlappedData_frame server ioData
  obtain ⟨sockets, hsockets⟩ := releaseOverlappedData_events server ioData
  subst hserver hevents
  rw [hsockets]
  refine h.quiet_thread [] howned hpc (congrArg (fun threads => threads.set i after.pc) hthreads) hmain
    (hpending.trans hnil) ?_ (typed_thread ?_) (fun _ => rfl) ?_ ?_ ?_ ?_ ?_ ?_ hadded (congrArg _ hclients)
  · intro other data hother hfound
    exact (findPosted_release fun hsame => hother (congrArg some hsame.symm)).trans hfound
  · cases after <;> rfl
  · cases after <;> exact fun _ => rfl
  · exact fun client => (closed_bytes sockets client).1
  · exact fun client => (closed_bytes sockets client).2
  · cases after <;> rfl
  · cases after <;> exact List.nil_subset _
  · rintro client ⟨found, hfound, hclosed⟩
    refine ⟨found, ?_, hclosed⟩
    rw [Server.findClient] at hfound ⊢
    exact (congrArg _ hclients).trans hfound

/-- A thread opens a socket for the next client. -/
theorem Inv.posting {events : List Event} {i : Nat} {ok : Bool} (h : Inv server out)
    (hpc : server.eventThreads[i]? = some .posting)
    (hstep : threadStep server i ok .posting = some (server', events)) : Inv server' (out ++ [events]) := by
  have howned := threadStep_owned h.owned hpc hstep
  have hnil : server.pending = server.pending ++ [] := (List.append_nil _).symm
  have hserver : server.openAccept.1.setThread i (.acceptEx server.openAccept.2) = server' :=
    congrArg Prod.fst (Option.some.inj hstep)
  have hevents : [.opened server.sockets] = events := congrArg Prod.snd (Option.some.inj hstep)
  subst hserver hevents
  have hcreated : ({ server with sockets := server.sockets + 1 } : Server).createOverlappedData .ACCEPT
      (some server.sockets) = (server.openAccept.1, server.openAccept.2) := rfl
  obtain ⟨hnew, hold⟩ := findPosted_create h.owned.opened hcreated
  refine h.quiet_thread [] howned hpc rfl rfl hnil (fun other data _ hfound => hold other data hfound) ?_ (fun _ => rfl)
    (fun _ => rfl) (fun _ => rfl) (fun _ => rfl) rfl (List.nil_subset _) (fun _ => id) rfl rfl
  intro hand hhand ioData operation hdata hoperation
  cases List.mem_singleton.mp hhand
  cases hdata
  cases hoperation
  exact ⟨_, hnew, rfl⟩

/-- A thread calls `lpfnAcceptEx`. -/
theorem Inv.acceptEx {events : List Event} {i : Nat} {ioData : Nat} {ok : Bool} (h : Inv server out)
    (hpc : server.eventThreads[i]? = some (.acceptEx ioData))
    (hstep : threadStep server i ok (.acceptEx ioData) = some (server', events)) :
    Inv server' (out ++ [events]) := by
  have howned := threadStep_owned h.owned hpc hstep
  have hmem : Hand.thread (.acceptEx ioData) ∈ server.hands := by
    obtain ⟨rest, hgone, -⟩ := hands_thread hpc
    exact hgone.mem_iff.mpr (List.mem_cons_self ..)
  have hnil : server.pending = server.pending ++ [] := (List.append_nil _).symm
  have htyped := h.typed _ hmem ioData .ACCEPT rfl rfl
  cases hstep
  cases ok with
  | false =>
    exact h.quiet_thread [] howned hpc rfl rfl hnil (fun _ _ _ hfound => hfound) (typed_thread rfl) (fun _ => rfl)
      (fun _ => rfl) (fun _ => rfl) (fun _ => rfl) rfl (List.nil_subset _) (fun _ => id) rfl rfl
  | true =>
    refine h.quiet_thread [⟨.ACCEPT, ioData, none⟩] howned hpc rfl rfl rfl (fun _ _ _ hfound => hfound) ?_
      (fun _ => rfl) (fun _ => rfl) (fun _ => rfl) (fun _ => rfl) rfl (List.nil_subset _) (fun _ => id) rfl rfl
    intro hand hhand other operation hdata hoperation
    rcases List.mem_cons.mp hhand with rfl | hhand
    · cases hoperation
    · cases List.mem_singleton.mp hhand
      cases hdata
      cases hoperation
      exact htyped

/-- Every step of a thread. -/
theorem threadStep_inv {events : List Event} {i : Nat} {pc : ThreadPc} {ok : Bool} (h : Inv server out)
    (hpc : server.eventThreads[i]? = some pc) (hstep : threadStep server i ok pc = some (server', events)) :
    Inv server' (out ++ [events]) := by
  have howned := threadStep_owned h.owned hpc hstep
  cases pc with
  | waiting => cases hstep
  | exited => cases hstep
  | closing ioData client => exact h.closing hpc hstep
  | accepted ioData => exact h.accepted hpc hstep
  | adding ioData => exact h.adding hpc hstep
  | checking ioData client => exact h.checking hpc hstep
  | writing ioData client => exact h.writing hpc hstep
  | receiving ioData client accepting =>
    have hserver := congrArg Prod.fst (Option.some.inj hstep)
    have hevents : [] = events := congrArg Prod.snd (Option.some.inj hstep)
    subst hevents
    refine h.receiving hpc ?_ howned hserver
    cases accepting
    · exact Or.inr rfl
    · exact Or.inl rfl
  | refusing ioData => exact h.refusing hpc hstep
  | releasing ioData after => exact h.releasing hpc hstep
  | posting => exact h.posting hpc hstep
  | acceptEx ioData => exact h.acceptEx hpc hstep

/-- The main thread posts what it holds, or has it refused. -/
theorem Inv.post_main {operation : SocketOperation} {ioData : Nat} {client : Option Nat} {ok : Bool}
    (h : Inv server out) (howned : server'.Owned) (hdata : server.main.ioData = some ioData)
    (hoperation : (Hand.main server.main).operationType = some operation) (hreceive : operation ≠ .RECEIVE)
    (hclient : ∀ other, client = some other → (Hand.main server.main).client = some other)
    (hserver : server' = { server.post operation ioData client ok with main := server'.main })
    (hnone : (Hand.main server'.main).operationType = none) (hnone' : (Hand.main server'.main).client = none)
    (hcloses : (if operation = .CLOSE_SERVER then 1 else 0) + server.main.posted server.eventThreads.length =
      server'.main.posted server.eventThreads.length) (hok : operation = .CLOSE_SERVER → ok = true)
    (hrange : server'.main.InRange server.eventThreads.length) : Inv server' (out ++ [[]]) := by
  have hmem : Hand.main server.main ∈ server.hands := List.perm_middle.mem_iff.mpr (List.mem_cons_self ..)
  have htyped := h.typed _ hmem ioData operation hdata hoperation
  generalize hpc : server'.main = pc at hserver hnone hnone' hcloses hrange
  subst hserver
  have hmain : ∀ hand ∈ [Hand.main pc], hand.operationType = none ∧ hand.client = none := fun hand hhand => by
    cases List.mem_singleton.mp hhand
    exact ⟨hnone, hnone'⟩
  cases ok with
  | false =>
    refine h.quiet_main [] howned rfl (List.append_nil _).symm (fun _ _ hfound => hfound)
      (fun hand hhand => typed_none (hmain hand hhand).1) (fun _ => rfl) (fun _ => rfl) (fun _ => rfl) ?_ hrange
      (fun hand hhand other hother => ?_) (fun _ => id) rfl rfl
    · rwa [if_neg fun hclose => Bool.false_ne_true (hok hclose)] at hcloses
    · rw [(hmain hand hhand).2] at hother
      cases hother
  | true =>
    refine h.quiet_main [⟨operation, ioData, client⟩] howned rfl rfl (fun _ _ hfound => hfound) ?_
      (fun _ => List.filterMap_cons_none (if_neg fun hsame => hreceive hsame.1)) (fun _ => rfl)
      (fun _ => rfl) ?_ hrange ?_ (fun _ => id) rfl rfl
    · intro hand hhand other operation' hother hoperation'
      rcases List.mem_cons.mp hhand with rfl | hhand
      · cases hnone.symm.trans hoperation'
      · cases List.mem_singleton.mp hhand
        cases hother
        cases hoperation'
        exact htyped
    · rw [← hcloses]
      refine congrArg (· + _) ?_
      cases operation <;> rfl
    · intro hand hhand other hother
      rcases List.mem_cons.mp hhand with rfl | hhand
      · cases hnone'.symm.trans hother
      · cases List.mem_singleton.mp hhand
        exact h.known _ hmem other (hclient other hother)

/-- The main thread takes an object. -/
theorem Inv.create_main {created : Server} {ioData : Nat} {operation : SocketOperation} {acceptedSock : Option Nat}
    {events : List Event} (h : Inv server out) (howned : server'.Owned)
    (hcreated : server.createOverlappedData operation acceptedSock = (created, ioData))
    (hserver : server' = { created with main := server'.main })
    (hdata : (Hand.main server'.main).ioData = some ioData)
    (hoperation : (Hand.main server'.main).operationType = some operation)
    (hclient : ∀ client, (Hand.main server'.main).client = some client → client < server.added)
    (hcloses : server.main.posted server.eventThreads.length = server'.main.posted server.eventThreads.length)
    (hrange : server'.main.InRange server.eventThreads.length)
    (htold : ∀ client, events.flatMap (Event.toldBytes client) = [])
    (hwritten : ∀ client, events.flatMap (Event.writtenBytes client) = []) : Inv server' (out ++ [events]) := by
  obtain ⟨hnew, hold⟩ := findPosted_create h.owned hcreated
  have hframe : created.eventThreads = server.eventThreads ∧ created.pending = server.pending ++ [] ∧
      created.clients = server.clients ∧ created.added = server.added := by
    rw [← show (server.createOverlappedData operation acceptedSock).1 = created by rw [hcreated]]
    exact ⟨rfl, (List.append_nil _).symm, rfl, rfl⟩
  obtain ⟨hthreads, hpending, hclients, hadded⟩ := hframe
  generalize hpc : server'.main = pc at hserver hdata hoperation hclient hcloses hrange
  subst hserver
  refine h.quiet_main [] howned hthreads hpending hold ?_ (fun _ => rfl) htold hwritten
    ((Nat.zero_add _).trans hcloses) hrange ?_ ?_ hadded (congrArg _ hclients)
  · intro hand hhand other operation' hother hoperation'
    cases List.mem_singleton.mp hhand
    cases hdata.symm.trans hother
    cases hoperation.symm.trans hoperation'
    exact ⟨_, hnew, rfl⟩
  · intro hand hhand client hclient'
    cases List.mem_singleton.mp hhand
    exact hclient client hclient'
  · rintro client ⟨found, hfound, hclosed⟩
    exact ⟨found, (congrArg (List.find? _) hclients).trans hfound, hclosed⟩

/-- The main thread goes on, and nothing else changes. -/
theorem Inv.go_main {events : List Event} (h : Inv server out) (pc : MainPc)
    (howned : ({ server with main := pc } : Server).Owned)
    (hnone : (Hand.main pc).operationType = none) (hnone' : (Hand.main pc).client = none)
    (hcloses : server.main.posted server.eventThreads.length = pc.posted server.eventThreads.length)
    (hrange : pc.InRange server.eventThreads.length)
    (htold : ∀ client, events.flatMap (Event.toldBytes client) = [])
    (hwritten : ∀ client, events.flatMap (Event.writtenBytes client) = []) :
    Inv { server with main := pc } (out ++ [events]) := by
  refine h.quiet_main [] howned rfl (List.append_nil _).symm (fun _ _ hfound => hfound) (fun hand hhand => ?_)
    (fun _ => rfl) htold hwritten ((Nat.zero_add _).trans hcloses) hrange (fun hand hhand client hclient => ?_)
    (fun _ => id) rfl rfl
  · cases List.mem_singleton.mp hhand
    exact typed_none hnone
  · cases List.mem_singleton.mp hhand
    cases hnone'.symm.trans hclient

theorem Inv.opened (h : Inv server out) : Inv { server with sockets := server.sockets + 1 } out :=
  ⟨h.owned.opened, h.typed,
    fun client => ⟨(h.chain client).one, (h.chain client).ready, (h.chain client).chunk, (h.chain client).ended,
      (h.chain client).fresh⟩, h.closes, h.inRange, h.known, h.ids⟩

section Main

variable {events : List Event} {i : Nat} {ok : Bool}

/-- `startListen` makes the next `AcceptEx`, or is done. -/
theorem Inv.listening (h : Inv server out) (hmain : server.main = .listening i)
    (hstep : mainStep server ok = some (server', events)) : Inv server' (out ++ [events]) := by
  have howned := mainStep_owned h.owned hstep
  unfold mainStep at hstep
  rw [hmain] at hstep
  dsimp only at hstep
  split at hstep
  · have hserver : ({ server.openAccept.1 with main := .acceptEx server.openAccept.2 i } : Server) = server' :=
      congrArg Prod.fst (Option.some.inj hstep)
    have hevents : [.opened server.sockets] = events := congrArg Prod.snd (Option.some.inj hstep)
    subst hserver hevents
    have hcreated : ({ server with sockets := server.sockets + 1 } : Server).createOverlappedData .ACCEPT
        (some server.sockets) = (server.openAccept.1, server.openAccept.2) := rfl
    exact h.opened.create_main howned hcreated rfl rfl rfl (fun _ hnone => by cases hnone)
      (show server.main.posted _ = _ by rw [hmain]; rfl) trivial (fun _ => rfl) (fun _ => rfl)
  · cases hstep
    exact h.go_main .idle howned rfl rfl (by rw [hmain]; rfl) trivial (fun _ => rfl) (fun _ => rfl)

/-- `cleanup` has posted a `CLOSE_SERVER` for each of the first threads. -/
theorem Inv.stopping (h : Inv server out) (hmain : server.main = .stopping i)
    (hstep : mainStep server ok = some (server', events)) : Inv server' (out ++ [events]) := by
  have howned := mainStep_owned h.owned hstep
  have hrange := h.inRange
  unfold mainStep at hstep
  rw [hmain] at hstep hrange
  dsimp only at hstep
  split at hstep
  next hlt =>
    have hserver : ({ (server.createOverlappedData .CLOSE_SERVER none).1 with
        main := .closing (server.createOverlappedData .CLOSE_SERVER none).2 i } : Server) = server' :=
      congrArg Prod.fst (Option.some.inj hstep)
    have hevents : [] = events := congrArg Prod.snd (Option.some.inj hstep)
    subst hserver hevents
    exact h.create_main howned rfl rfl rfl rfl (fun _ hnone => by cases hnone)
      (by rw [hmain]; rfl) hlt (fun _ => rfl) (fun _ => rfl)
  next hge =>
    cases hstep
    refine h.go_main .joining howned rfl rfl ?_ trivial (fun _ => rfl) (fun _ => rfl)
    rw [hmain]
    exact Nat.le_antisymm hrange (Nat.not_lt.mp hge)

/-- All threads have ended. -/
theorem Inv.joining (h : Inv server out) (hmain : server.main = .joining)
    (hstep : mainStep server ok = some (server', events)) : Inv server' (out ++ [events]) := by
  have howned := mainStep_owned h.owned hstep
  unfold mainStep at hstep
  rw [hmain] at hstep
  dsimp only at hstep
  split at hstep
  next hexited =>
    cases hstep
    have hthread : ∀ hand ∈ server.eventThreads.map Hand.thread, hand = .thread .exited := fun hand hhand => by
      obtain ⟨pc, hpc, rfl⟩ := List.mem_map.mp hhand
      rw [hexited pc hpc]
    have hmem : ∀ hand ∈ [Hand.main .idle], hand = .main .idle := fun hand hhand => List.mem_singleton.mp hhand
    refine h.quiet (server.eventThreads.map .thread ++ [.main server.main]) [.main .idle] howned
      (.of_eq (by rw [Server.hands, List.append_assoc]; rfl)) (.refl _) (fun _ _ _ _ _ hfound => hfound)
      (fun hand hhand => typed_none (by rw [hmem hand hhand]; rfl)) (fun client => ?_)
      (fun _ => rfl) (fun _ => rfl)
      (fun _ => rfl) ?_ trivial (fun hand hhand client hclient => ?_) (fun _ => id) rfl rfl
    · refine List.filterMap_eq_nil_iff.mpr fun hand hhand => ?_
      rcases List.mem_append.mp hhand with hhand | hhand
      · rw [hthread hand hhand]
        rfl
      · rw [List.mem_singleton.mp hhand, hmain]
        rfl
    · have hcount : (server.eventThreads.map Hand.thread).countP Hand.closes = server.eventThreads.length := by
        rw [List.countP_eq_length.mpr fun hand hhand => by rw [hthread hand hhand]; rfl, List.length_map]
      rw [List.countP_append, hcount, hmain]
      exact Nat.zero_add _
    · rw [hmem hand hhand] at hclient
      cases hclient
  next => cases hstep

theorem mainStep_inv (h : Inv server out)
    (hstep : mainStep server ok = some (server', events)) : Inv server' (out ++ [events]) := by
  have howned := mainStep_owned h.owned hstep
  have hrange := h.inRange
  unfold mainStep at hstep
  cases hmain : server.main with
  | idle =>
    rw [hmain] at hstep
    cases hstep
  | listening => exact h.listening hmain hstep
  | acceptEx ioData i =>
    rw [hmain] at hstep
    cases hstep
    exact h.post_main howned (by rw [hmain]; rfl) (by rw [hmain]; rfl) (by decide)
      (fun _ hnone => by cases hnone) rfl rfl rfl (by rw [hmain]; rfl) (fun hclose => by cases hclose) trivial
  | sending ioData client =>
    rw [hmain] at hstep
    cases hstep
    exact h.post_main howned (by rw [hmain]; rfl) (by rw [hmain]; rfl) (by decide)
      (fun _ hclient => by rw [hmain]; exact hclient)
      rfl rfl rfl (by rw [hmain]; rfl) (fun hclose => by cases hclose) trivial
  | stopping => exact h.stopping hmain hstep
  | closing ioData i =>
    rw [hmain] at hstep hrange
    cases hstep
    refine h.post_main howned (by rw [hmain]; rfl) (by rw [hmain]; rfl) (by decide)
      (fun _ hnone => by cases hnone) rfl rfl rfl ?_ (fun _ => rfl) (Nat.succ_le_of_lt hrange)
    rw [hmain, if_pos rfl]
    exact Nat.add_comm 1 i
  | joining => exact h.joining hmain hstep

end Main

/-- What a thread goes on to do with a completion. -/
theorem dispatch_cases {data : OverlappedData} {client : Option Nat} {completion : Completion} {pc : ThreadPc}
    (h : dispatch data client completion = some pc) :
    (pc = .releasing data.id .exit ∧ data.operationType = .CLOSE_SERVER) ∨
    (pc = .releasing data.id .waiting ∧ ((∃ aborted, completion = .failed aborted) ∨ data.operationType = .SEND)) ∨
    (∃ about, pc = .closing data.id about ∧ client = some about ∧ (completion = .failed false ∨
      completion = .transferred [] ∧ (data.operationType = .RECEIVE ∨ data.operationType = .SEND))) ∨
    (pc = .accepted data.id ∧ data.operationType = .ACCEPT) ∨
    (∃ about bytes, pc = .checking data.id about ∧ client = some about ∧ data.operationType = .RECEIVE ∧
      completion = .transferred bytes) := by
  cases completion with
  | failed aborted =>
    cases aborted with
    | true =>
      cases h
      exact .inr (.inl ⟨rfl, .inl ⟨true, rfl⟩⟩)
    | false =>
      obtain ⟨about, hclient, rfl⟩ := Option.map_eq_some_iff.mp h
      exact .inr (.inr (.inl ⟨about, rfl, hclient, .inl rfl⟩))
  | transferred bytes =>
    unfold dispatch at h
    dsimp only at h
    cases hoperation : data.operationType with
    | ACCEPT =>
      rw [hoperation] at h
      cases h
      exact .inr (.inr (.inr (.inl ⟨rfl, rfl⟩)))
    | RECEIVE =>
      rw [hoperation] at h
      dsimp only at h
      split at h
      next hnil =>
        obtain ⟨about, hclient, rfl⟩ := Option.map_eq_some_iff.mp h
        exact .inr (.inr (.inl ⟨about, rfl, hclient, .inr ⟨by rw [hnil], .inl rfl⟩⟩))
      next =>
        obtain ⟨about, hclient, rfl⟩ := Option.map_eq_some_iff.mp h
        exact .inr (.inr (.inr (.inr ⟨about, bytes, rfl, hclient, rfl, rfl⟩)))
    | SEND =>
      rw [hoperation] at h
      dsimp only at h
      split at h
      next hnil =>
        obtain ⟨about, hclient, rfl⟩ := Option.map_eq_some_iff.mp h
        exact .inr (.inr (.inl ⟨about, rfl, hclient, .inr ⟨by rw [hnil], .inr rfl⟩⟩))
      next =>
        cases h
        exact .inr (.inl ⟨rfl, .inr rfl⟩)
    | CLOSE_SERVER =>
      rw [hoperation] at h
      cases h
      exact .inl ⟨rfl, rfl⟩

/-- A thread that is told of an operation, as a hand. -/
theorem dispatch_hand {data : OverlappedData} {client : Option Nat} {completion : Completion} {pc : ThreadPc}
    (h : dispatch data client completion = some pc)
    (hclose : data.operationType = .CLOSE_SERVER → completion = .transferred []) :
    (Hand.thread pc).operationType = none ∧ (∀ about, (Hand.thread pc).client = some about → client = some about) ∧
      (Hand.thread pc).closes = (data.operationType == .CLOSE_SERVER) := by
  obtain ⟨rfl, htype⟩ | ⟨rfl, hwhy⟩ | ⟨about, rfl, hclient, hwhy⟩ | ⟨rfl, htype⟩ | ⟨about, bytes, rfl, hclient, htype, -⟩ :=
    dispatch_cases h
  · exact ⟨rfl, fun _ hnone => (by cases hnone), by rw [htype]; rfl⟩
  · refine ⟨rfl, fun _ hnone => (by cases hnone), (beq_eq_false_iff_ne.mpr fun htype => ?_).symm⟩
    rcases hwhy with ⟨aborted, hfailed⟩ | hsend
    · cases hfailed.symm.trans (hclose htype)
    · cases hsend.symm.trans htype
  · refine ⟨rfl, fun _ hsome => hclient.trans hsome, (beq_eq_false_iff_ne.mpr fun htype => ?_).symm⟩
    rcases hwhy with hfailed | ⟨-, hreceive | hsend⟩
    · cases hfailed.symm.trans (hclose htype)
    · cases hreceive.symm.trans htype
    · cases hsend.symm.trans htype
  · exact ⟨rfl, fun _ hnone => (by cases hnone), by rw [htype]; rfl⟩
  · exact ⟨rfl, fun _ hsome => hclient.trans hsome, by rw [htype]; rfl⟩

/-- It has bytes, or the receiving has come to an end. -/
theorem dispatch_phase {data : OverlappedData} {client : Option Nat} {completion : Completion} {pc : ThreadPc}
    (h : dispatch data client completion = some pc) (about : Nat) :
    ((Hand.thread pc).phase about = none ∧
      (data.operationType = .RECEIVE → client = some about →
        ∀ bytes, completion = .transferred bytes → bytes = [])) ∨
    (∃ bytes, (Hand.thread pc).phase about = some (.chunk data.id) ∧ client = some about ∧
      data.operationType = .RECEIVE ∧ completion = .transferred bytes) := by
  obtain ⟨rfl, htype⟩ | ⟨rfl, hwhy⟩ | ⟨other, rfl, hclient, hwhy⟩ | ⟨rfl, htype⟩ | ⟨other, bytes, rfl, hclient, htype, hbytes⟩ :=
    dispatch_cases h
  · exact .inl ⟨rfl, fun hreceive => by cases htype.symm.trans hreceive⟩
  · refine .inl ⟨rfl, fun hreceive _ bytes hbytes => ?_⟩
    rcases hwhy with ⟨aborted, hfailed⟩ | hsend
    · cases hfailed.symm.trans hbytes
    · cases hsend.symm.trans hreceive
  · refine .inl ⟨rfl, fun _ _ bytes hbytes => ?_⟩
    rcases hwhy with hfailed | ⟨hnil, -⟩
    · cases hfailed.symm.trans hbytes
    · cases hnil.symm.trans hbytes
      rfl
  · exact .inl ⟨rfl, fun hreceive => by cases htype.symm.trans hreceive⟩
  · by_cases hother : other = about
    · exact .inr ⟨bytes, if_pos hother, by rw [hclient, hother], htype, hbytes⟩
    · exact .inl ⟨if_neg hother, fun _ hsome => absurd (Option.some.inj (hclient.symm.trans hsome)) hother⟩

theorem told_written (operation : Operation) (completion : Completion) (client : Nat) :
    (operation.told completion).flatMap (Event.writtenBytes client) = [] := by
  unfold Operation.told
  cases completion with
  | failed aborted => rfl
  | transferred bytes =>
    dsimp only
    split
    · cases operation.client <;> rfl
    · rfl

/-- A thread is only told of bytes of the client that was received for. -/
theorem told_received (operation : Operation) (completion : Completion) (client : Nat) :
    (operation.told completion).flatMap (Event.toldBytes client) = match completion with
      | .transferred bytes =>
        if operation.operationType = .RECEIVE ∧ operation.client = some client then bytes else []
      | .failed _ => [] := by
  unfold Operation.told
  cases completion with
  | failed aborted => rfl
  | transferred bytes =>
    dsimp only
    by_cases hoperation : operation.operationType = .RECEIVE
    · rw [if_pos hoperation]
      cases hclient : operation.client with
      | none => rw [if_neg fun hsame => by cases hsame.2]; rfl
      | some other =>
        by_cases hother : other = client
        · rw [if_pos ⟨hoperation, congrArg some hother⟩]
          simp only [Option.toList_some, List.map_cons, List.map_nil, List.flatMap_cons, List.flatMap_nil,
            Event.toldBytes, if_pos hother, List.append_nil]
        · rw [if_neg fun hsame => hother (Option.some.inj hsame.2)]
          simp only [Option.toList_some, List.map_cons, List.map_nil, List.flatMap_cons, List.flatMap_nil,
            Event.toldBytes, if_neg hother, List.append_nil]
    · rw [if_neg hoperation, if_neg fun hsame => hoperation hsame.1]
      rfl

/-- No hand takes or gives anything. -/
theorem Inv.same {events : List Event} (h : Inv server out) (howned : server'.Owned)
    (hthreads : server'.eventThreads = server.eventThreads) (hmain : server'.main = server.main)
    (hpending : server'.pending = server.pending) (hposted : server'.ioDataPosted = server.ioDataPosted)
    (htold : ∀ client, events.flatMap (Event.toldBytes client) = [])
    (hwritten : ∀ client, events.flatMap (Event.writtenBytes client) = [])
    (hclosing : ∀ client, server.Closing client → server'.Closing client) (hadded : server'.added = server.added)
    (hids : server'.clients.map Client.id = server.clients.map Client.id) : Inv server' (out ++ [events]) := by
  have hhands : server'.hands = server.hands := by rw [Server.hands, hthreads, hmain, hpending]; rfl
  refine h.quiet [] [] howned (.refl _) (.of_eq hhands) (fun _ _ other data _ hfound => ?_)
    (fun _ hhand => absurd hhand List.not_mem_nil) (fun _ => rfl) (fun _ => rfl) htold hwritten
    (by rw [hthreads, hmain]) (by rw [hthreads, hmain]; exact h.inRange)
    (fun _ hhand => absurd hhand List.not_mem_nil)
    hclosing hadded hids
  rw [Server.findPosted, hposted]
  exact hfound

theorem known_of_findClient {client : Nat} {found : Client} (h : Inv server out)
    (hfound : server.findClient client = some found) : client < server.added := by
  have hid : (found.id == client) = true := List.find?_some (p := fun other : Client => other.id == client) hfound
  have hmem := List.mem_map_of_mem (f := Client.id) (List.mem_of_find?_eq_some hfound)
  rw [h.ids, eq_of_beq hid] at hmem
  exact List.mem_range.mp hmem

theorem fill_id (ioData : Nat) (bytes : List UInt8) (data : OverlappedData) :
    (if data.id = ioData then { data with buffer := bytes } else data).id = data.id := by
  split <;> rfl

/-- What the system writes is in the object of the operation. -/
theorem findPosted_fill_other {operation : Operation} {other : Nat} {data : OverlappedData}
    (completion : Completion) (hne : other ≠ operation.ioData) (h : server.findPosted other = some data) :
    (server.fill operation completion).findPosted other = some data := by
  unfold Server.fill
  cases completion with
  | failed aborted => exact h
  | transferred bytes =>
    dsimp only
    split
    · exact findPosted_map_other (fill_id operation.ioData bytes) (fun _ hid => if_neg hid) rfl hne h
    · exact h

theorem findPosted_fill {operation : Operation} {data : OverlappedData} (bytes : List UInt8)
    (hreceive : operation.operationType = .RECEIVE) (h : server.findPosted operation.ioData = some data) :
    (server.fill operation (.transferred bytes)).findPosted operation.ioData =
      some { data with buffer := bytes } := by
  have hfill : (server.fill operation (.transferred bytes)).ioDataPosted = server.ioDataPosted.map fun other =>
      if other.id = operation.ioData then { other with buffer := bytes } else other := by
    unfold Server.fill
    dsimp only
    rw [if_pos hreceive]
  rw [findPosted_map (fill_id operation.ioData bytes) hfill, h]
  exact congrArg some (if_pos (id_of_findPosted h))

theorem fill_clients (server : Server) (operation : Operation) (completion : Completion) :
    (server.fill operation completion).clients = server.clients ∧
      (server.fill operation completion).added = server.added := by
  unfold Server.fill
  cases completion with
  | failed aborted => exact ⟨rfl, rfl⟩
  | transferred bytes =>
    dsimp only
    split <;> exact ⟨rfl, rfl⟩

/-- A thread gets a completion. -/
theorem Inv.dequeue {i k : Nat} {operation : Operation} {completion : Completion}
    {data : OverlappedData} {pc : ThreadPc}
    (h : Inv server out) (hthread : server.eventThreads[i]? = some .waiting)
    (hpending : server.pending[k]? = some operation)
    (hclose : ¬ (operation.operationType = .CLOSE_SERVER ∧ completion ≠ .transferred []))
    (hdata : server.findPosted operation.ioData = some data)
    (hpc : dispatch data operation.client completion = some pc)
    (hserver : ({ (server.fill operation completion).setThread i pc with pending := server.pending.eraseIdx k } : Server) =
      server') (howned : server'.Owned) : Inv server' (out ++ [operation.told completion]) := by
  obtain ⟨rest, hgone, hmoved⟩ := hands_dequeue hthread hpending
  obtain ⟨hpool, hmade, hthreads, hmain, hlost⟩ := fill_frame server operation completion
  obtain ⟨hclients, hadded⟩ := fill_clients server operation completion
  have hmem : Hand.system operation ∈ server.hands :=
    hgone.mem_iff.mpr (List.mem_cons_of_mem _ (List.mem_cons_self ..))
  have htype : data.operationType = operation.operationType := by
    obtain ⟨found, hfound, htype⟩ := h.typed _ hmem operation.ioData operation.operationType rfl rfl
    cases hdata.symm.trans hfound
    exact htype
  have hrotated : server.hands.Perm (.system operation :: (.thread .waiting :: rest)) :=
    hgone.trans (List.Perm.swap ..)
  have hset : server'.eventThreads = server.eventThreads.set i pc := by
    rw [← hserver, ← hthreads]
    rfl
  have hlen : server'.eventThreads.length = server.eventThreads.length := by rw [hset, List.length_set]
  have hmain' : server'.main = server.main := by rw [← hserver]; exact hmain
  have hadded' : server'.added = server.added := by rw [← hserver]; exact hadded
  have hclients' : server'.clients = server.clients := by rw [← hserver]; exact hclients
  have hposted : ∀ other, server'.findPosted other = (server.fill operation completion).findPosted other := by
    rw [← hserver]
    exact fun _ => rfl
  have hcome := hmoved pc server' hset hmain' (by rw [← hserver])
  obtain ⟨hoperation, hclient, hcloses⟩ := dispatch_hand hpc fun hclosing => by
    by_contra hne
    exact hclose ⟨htype.symm.trans hclosing, hne⟩
  have hclosing : ∀ client, server.Closing client → server'.Closing client := by
    rintro client ⟨found, hfound, hclosed⟩
    exact ⟨found, (congrArg (List.find? _) hclients').trans hfound, hclosed⟩
  have hfind : ∀ hand ∈ rest, ∀ other found, hand.ioData = some other → server.findPosted other = some found →
      server'.findPosted other = some found := fun hand hhand other found hother hfound =>
    (hposted other).trans
      (findPosted_fill_other completion (h.owned.apart hrotated (List.mem_cons_of_mem _ hhand) rfl hother) hfound)
  refine h.transfer [.thread .waiting, .system operation] [.thread pc] howned hgone hcome hfind (typed_thread hoperation)
    (fun client => ?_) ?_ (by rw [hmain', hlen]; exact h.inRange) (fun hand hhand client hhas => ?_)
    (Nat.le_of_eq hadded'.symm) (by rw [hclients', hadded', h.ids])
  · have hphases := phases_perm (show server'.hands.Perm ([.thread pc] ++ rest) from hcome) client
    by_cases hsame : operation.operationType = .RECEIVE ∧ operation.client = some client
    · -- this receiving comes to an end, or its bytes are in the object now
      have hphase : (Hand.system operation).phase client = some .ready := if_pos hsame
      obtain ⟨hnil, hready⟩ := (h.chain client).others hrotated hphase
      have hbefore := (h.chain client).ready hready
      have habout : client < server'.added := by
        rw [hadded']
        exact h.known _ hmem client hsame.2
      rw [List.filterMap_cons_none rfl] at hnil
      rw [List.filterMap_append, hnil, List.append_nil] at hphases
      rcases dispatch_phase hpc client with ⟨hnone, hbytes⟩ | ⟨bytes, hchunk, -, -, rfl⟩
      · rw [List.filterMap_cons_none hnone] at hphases
        refine Server.Chain.of_ended (List.perm_nil.mp hphases) (?_ : _ = _ ++ [])
          (fun hne => absurd rfl hne) habout
        have htold : (operation.told completion).flatMap (Event.toldBytes client) = [] := by
          rw [told_received]
          cases completion with
          | failed aborted => rfl
          | transferred bytes => exact (if_pos hsame).trans (hbytes (htype.trans hsame.1) hsame.2 bytes rfl)
        rw [received_same htold, written_same (told_written operation completion client), hbefore, List.append_nil]
      · have hid := id_of_findPosted hdata
        rw [phase_singleton hchunk, hid] at hphases
        refine Server.Chain.of_chunk (List.perm_singleton.mp hphases)
          ((hposted _).trans (findPosted_fill bytes hsame.1 hdata)) ?_ habout
        rw [received_concat, told_received, written_same (told_written operation _ client), hbefore]
        exact congrArg _ (if_pos hsame)
    · have hnone : (Hand.thread pc).phase client = none := by
        rcases dispatch_phase hpc client with ⟨hnone, -⟩ | ⟨bytes, -, hsome, hreceive, -⟩
        · exact hnone
        · exact absurd ⟨htype.symm.trans hreceive, hsome⟩ hsame
      have hgone' : [Hand.thread .waiting, .system operation].filterMap (Hand.phase client) = [] := by
        rw [List.filterMap_cons_none rfl]
        exact List.filterMap_cons_none (if_neg hsame)
      refine (h.chain client).keep [.thread .waiting, .system operation] [.thread pc] hgone hcome hgone'
        (List.filterMap_cons_none hnone) hfind ?_ (told_written operation completion client) (hclosing client)
        (Nat.le_of_eq hadded'.symm)
      rw [told_received]
      cases completion with
      | failed aborted => rfl
      | transferred bytes => exact if_neg hsame
  · rw [hmain', hlen, List.countP_cons, List.countP_cons, List.countP_cons, hcloses, htype]
    rfl
  · cases List.mem_singleton.mp hhand
    rw [hadded']
    exact h.known _ hmem client (hclient client hhas)

/-- The threads are made. -/
theorem Inv.start (numThreads : Nat) (h : Inv server out)
    (howned : ({ server with eventThreads := .replicate numThreads .waiting, main := .listening 0 } : Server).Owned)
    (hidle : server.main = .idle) (hnone : server.eventThreads = []) :
    Inv { server with eventThreads := .replicate numThreads .waiting, main := .listening 0 } (out ++ [[]]) := by
  have hnew : ∀ hand ∈ Hand.main (.listening 0) :: (List.replicate numThreads .waiting).map .thread,
      hand = .main (.listening 0) ∨ hand = .thread .waiting := fun hand hhand => by
    rcases List.mem_cons.mp hhand with rfl | hhand
    · exact .inl rfl
    · obtain ⟨pc, hpc, rfl⟩ := List.mem_map.mp hhand
      exact .inr (congrArg Hand.thread (List.eq_of_mem_replicate hpc))
  have hcome : Server.hands { server with eventThreads := .replicate numThreads .waiting, main := .listening 0 } =
      (List.replicate numThreads .waiting).map .thread ++ .main (.listening 0) :: server.pending.map .system := rfl
  refine h.quiet [.main server.main] (.main (.listening 0) :: (List.replicate numThreads .waiting).map .thread) howned
    (.of_eq (by rw [Server.hands, hnone]; rfl))
    ((List.Perm.of_eq hcome).trans List.perm_middle) (fun _ _ _ _ _ hfound => hfound)
    (fun hand hhand => ?_) (fun _ => ?_)
    (fun _ => ?_) (fun _ => rfl) (fun _ => rfl) ?_ trivial (fun hand hhand client hclient => ?_)
    (fun _ => id) rfl rfl
  · rcases hnew hand hhand with rfl | rfl <;> exact typed_none rfl
  · rw [hidle]
    rfl
  · refine List.filterMap_eq_nil_iff.mpr fun hand hhand => ?_
    rcases hnew hand hhand with rfl | rfl <;> rfl
  · have hzero : (Hand.main (.listening 0) :: (List.replicate numThreads .waiting).map .thread).countP Hand.closes = 0 := by
      refine List.countP_eq_zero.mpr fun hand hhand => ?_
      rcases hnew hand hhand with rfl | rfl <;> exact Bool.false_ne_true
    rw [hzero, hidle]
    rfl
  · rcases hnew hand hhand with rfl | rfl <;> cases hclient

theorem step_inv {events : List Event} {action : Action} (h : Inv server out)
    (hstep : step server action = some (server', events)) : Inv server' (out ++ [events]) := by
  have howned := step_owned h.owned hstep
  unfold step at hstep
  dsimp only at hstep
  cases action with
  | startListen hardware_concurrency =>
    dsimp only at hstep
    split at hstep
    next hidle =>
      cases hstep
      exact h.start _ howned hidle.1 hidle.2
    next => cases hstep
  | dequeue i k completion =>
    dsimp only at hstep
    split at hstep
    next operation hthread hpending =>
      split at hstep
      next => cases hstep
      next hclose =>
        split at hstep
        next => cases hstep
        next data hdata =>
          obtain ⟨pc, hpc, heq⟩ := Option.map_eq_some_iff.mp hstep
          have hevents : operation.told completion = events := congrArg Prod.snd heq
          subst hevents
          exact h.dequeue hthread hpending hclose hdata hpc (congrArg Prod.fst heq) howned
    next => cases hstep
  | thread i ok =>
    obtain ⟨pc, hpc, hthread⟩ := Option.bind_eq_some_iff.mp hstep
    exact threadStep_inv h hpc hthread
  | main ok => exact mainStep_inv h hstep
  | flushClient client =>
    dsimp only at hstep
    split at hstep
    next found hidle hfound =>
      split at hstep
      next => cases hstep
      next =>
        have hserver : ({ (server.createOverlappedData .SEND none).1 with
            main := .sending (server.createOverlappedData .SEND none).2 client } : Server) = server' :=
          congrArg Prod.fst (Option.some.inj hstep)
        have hevents : [] = events := congrArg Prod.snd (Option.some.inj hstep)
        subst hserver hevents
        refine h.create_main howned rfl rfl rfl rfl (fun other hother => ?_)
          (by rw [hidle]; rfl) trivial (fun _ => rfl) (fun _ => rfl)
        cases hother
        exact known_of_findClient h hfound
    next => cases hstep
  | kickClient client =>
    dsimp only at hstep
    split at hstep
    next found hidle hfound =>
      split at hstep
      next => cases hstep
      next =>
        cases hstep
        exact h.same howned rfl rfl rfl rfl (fun _ => rfl) (fun _ => rfl) (fun _ => closing_close client) rfl
          (ids_map (fun other => by split <;> rfl) server.clients)
    next => cases hstep
  | destroyClient client =>
    dsimp only at hstep
    split at hstep
    next found hidle hfound =>
      split at hstep
      next => cases hstep
      next =>
        cases hstep
        refine h.same howned rfl rfl rfl rfl (fun other => ?_) (fun other => ?_)
          (fun _ => closing_destroy client) rfl (ids_map (fun other => by split <;> rfl) server.clients)
        · cases found.socket <;> rfl
        · cases found.socket <;> rfl
    next => cases hstep
  | cleanup =>
    dsimp only at hstep
    split at hstep
    next hidle =>
      cases hstep
      exact h.go_main (.stopping 0) howned rfl rfl (by rw [hidle]; rfl) (Nat.zero_le _)
        (fun _ => rfl) (fun _ => rfl)
    next => cases hstep

/-- Who has the bytes of a client. -/
theorem chunk_thread {hand : Hand} {client ioData : Nat} (hhand : hand ∈ server.hands)
    (hphase : hand.phase client = some (.chunk ioData)) :
    ∃ pc ∈ server.eventThreads, pc = .checking ioData client ∨ pc = .writing ioData client := by
  rcases List.mem_append.mp hhand with hthread | hother
  · obtain ⟨pc, hpc, rfl⟩ := List.mem_map.mp hthread
    refine ⟨pc, hpc, ?_⟩
    cases pc with
    | checking data other =>
      obtain ⟨rfl, hdata⟩ := Option.ite_some_none_eq_some.mp hphase
      cases hdata
      exact .inl rfl
    | writing data other =>
      obtain ⟨rfl, hdata⟩ := Option.ite_some_none_eq_some.mp hphase
      cases hdata
      exact .inr rfl
    | receiving data other accepting => cases (Option.ite_some_none_eq_some.mp hphase).2
    | waiting | closing | accepted | adding | refusing | releasing | posting | acceptEx | exited => cases hphase
  · rcases List.mem_cons.mp hother with rfl | hsystem
    · cases hphase
    · obtain ⟨operation, -, rfl⟩ := List.mem_map.mp hsystem
      cases (Option.ite_some_none_eq_some.mp hphase).2

/-! ## Every run -/

theorem new_inv : Inv .new [] := by
  refine ⟨new_owned, fun hand hhand => ?_, fun client => ?_, rfl, trivial, fun hand hhand client hclient => ?_, rfl⟩
  · cases List.mem_singleton.mp hhand
    exact typed_none rfl
  · exact ⟨Nat.zero_le 1, fun _ => rfl, fun _ hchunk => (by cases hchunk), fun _ => ⟨[], rfl, fun hne => absurd rfl hne⟩,
      fun _ => ⟨rfl, rfl⟩⟩
  · cases List.mem_singleton.mp hhand
    cases hclient

theorem run_inv {actions : List Action} (hrun : runOps step Server.new actions = some (server, out)) :
    Inv server out :=
  runOps_inv (fun server _ out => Inv server out) (fun _ _ _ _ _ _ h hstep => step_inv h hstep) new_inv hrun

/-- **A completion is dealt with as what was posted**: the object of an operation says what it is. -/
theorem posted_as (actions : List Action) (server : Server) (out : List (List Event))
    (hrun : runOps step Server.new actions = some (server, out)) :
    ∀ operation ∈ server.pending, ∃ data, server.findPosted operation.ioData = some data ∧
      data.operationType = operation.operationType := by
  intro operation hoperation
  refine (run_inv hrun).typed (.system operation) ?_ operation.ioData operation.operationType rfl rfl
  exact List.mem_append_right _ (List.mem_cons_of_mem _ (List.mem_map_of_mem hoperation))

theorem posted_as_receiving :
    ∃ server out, runOps step Server.new receiving = some (server, out) ∧
      ∀ operation ∈ server.pending, ∃ data, server.findPosted operation.ioData = some data ∧
        data.operationType = operation.operationType :=
  have h := (Option.some_get receiving_defined).symm
  ⟨_, _, h, posted_as _ _ _ h⟩

/-- **What a client receives is written in order.**  One thread or one operation at most receives for a client;
and all that the threads were told of is in its `readerBuffer`, but for what a thread is about to write, or what
came when the client was closing. -/
theorem received_in_order (actions : List Action) (server : Server) (out : List (List Event))
    (hrun : runOps step Server.new actions = some (server, out)) (client : Nat) :
    (server.phases client).length ≤ 1 ∧
      ∃ rest, received client out = written client out ++ rest ∧
        (rest ≠ [] → server.Closing client ∨ ∃ pc ∈ server.eventThreads, ∃ data ∈ server.ioDataPosted,
          (pc = .checking data.id client ∨ pc = .writing data.id client) ∧ data.buffer = rest) := by
  have h := (run_inv hrun).chain client
  refine ⟨h.one, ?_⟩
  rcases hphases : server.phases client with _ | ⟨phase, others⟩
  · obtain ⟨rest, hbytes, hclosing⟩ := h.ended hphases
    exact ⟨rest, hbytes, fun hne => .inl (hclosing hne)⟩
  · have hmem : phase ∈ server.phases client := by
      rw [hphases]
      exact List.mem_cons_self ..
    cases phase with
    | ready => exact ⟨[], by rw [h.ready hmem, List.append_nil], fun hne => absurd rfl hne⟩
    | chunk ioData =>
      obtain ⟨data, hdata, hbytes⟩ := h.chunk ioData hmem
      refine ⟨data.buffer, hbytes, fun _ => .inr ?_⟩
      obtain ⟨hand, hhand, hphase⟩ := List.mem_filterMap.mp hmem
      obtain ⟨pc, hpc, hwhere⟩ := chunk_thread hhand hphase
      refine ⟨pc, hpc, data, List.mem_of_find?_eq_some hdata, ?_, rfl⟩
      rwa [id_of_findPosted hdata]

theorem received_in_order_receiving :
    ∃ server out, runOps step Server.new receiving = some (server, out) ∧ written 0 out = [7, 8] ∧
      (server.phases 0).length ≤ 1 ∧
      ∃ rest, received 0 out = written 0 out ++ rest ∧
        (rest ≠ [] → server.Closing 0 ∨ ∃ pc ∈ server.eventThreads, ∃ data ∈ server.ioDataPosted,
          (pc = .checking data.id 0 ∨ pc = .writing data.id 0) ∧ data.buffer = rest) :=
  have h := (Option.some_get receiving_defined).symm
  ⟨_, _, h, by decide +kernel, received_in_order _ _ _ h 0⟩

/-! ## The end of the threads -/

theorem findClient_of_known (h : Inv server out) {client : Nat} (hknown : client < server.added) :
    ∃ found, server.findClient client = some found := by
  have hmem : client ∈ server.clients.map Client.id := by
    rw [h.ids]
    exact List.mem_range.mpr hknown
  obtain ⟨found, hfound, rfl⟩ := List.mem_map.mp hmem
  exact Option.isSome_iff_exists.mp (List.find?_isSome.mpr ⟨found, hfound, beq_self_eq_true _⟩)

/-- How many steps a thread is from its end, when it takes a `CLOSE_SERVER` as soon as it waits. -/
def ThreadPc.rank : ThreadPc → Nat
  | .exited => 0
  | .releasing _ .exit => 1
  | .waiting => 2
  | .releasing _ .waiting | .acceptEx _ | .receiving _ _ false => 3
  | .closing .. | .writing .. | .posting => 4
  | .releasing _ .postAcceptEx | .checking .. | .receiving _ _ true => 5
  | .adding _ | .refusing _ => 6
  | .accepted _ => 7

def Server.rank (server : Server) : Nat := (server.eventThreads.map ThreadPc.rank).foldr (· + ·) 0

theorem foldr_rank_set {threads : List ThreadPc} {i : Nat} {pc : ThreadPc} (hpc : threads[i]? = some pc)
    (pc' : ThreadPc) : ((threads.set i pc').map ThreadPc.rank).foldr (· + ·) 0 + pc.rank =
      (threads.map ThreadPc.rank).foldr (· + ·) 0 + pc'.rank := by
  induction threads generalizing i with
  | nil => cases hpc
  | cons first threads ih =>
    cases i with
    | zero =>
      cases hpc
      simp only [List.set_cons_zero, List.map_cons, List.foldr_cons]
      omega
    | succ i =>
      have hrest := ih hpc
      simp only [List.set_cons_succ, List.map_cons, List.foldr_cons]
      omega

/-- A thread at work goes on, and gets nearer to its end. -/
theorem threadStep_down (h : Inv server out) {i : Nat} {pc : ThreadPc} (hpc : server.eventThreads[i]? = some pc)
    (hwaiting : pc ≠ .waiting) (hexited : pc ≠ .exited) (ok : Bool) :
    ∃ server' events pc', threadStep server i ok pc = some (server', events) ∧
      server'.eventThreads = server.eventThreads.set i pc' ∧ server'.main = server.main ∧ pc'.rank < pc.rank := by
  have hmem : Hand.thread pc ∈ server.hands :=
    List.mem_append_left _ (List.mem_map_of_mem (List.mem_of_getElem? hpc))
  have hfind : ∀ ioData, pc.ioData = some ioData → ∃ data, server.findPosted ioData = some data :=
    fun ioData hdata => by
    obtain ⟨data, hdata, -⟩ := h.owned.findPosted hmem (show _ = some ioData from hdata)
    exact ⟨data, hdata⟩
  cases pc with
  | waiting => exact absurd rfl hwaiting
  | exited => exact absurd rfl hexited
  | closing ioData client => exact ⟨_, _, _, rfl, rfl, rfl, Nat.lt_succ_self 3⟩
  | accepted ioData => exact ⟨_, _, _, rfl, rfl, rfl, by cases ok <;> exact Nat.lt_succ_self 6⟩
  | adding ioData =>
    obtain ⟨data, hdata⟩ := hfind ioData rfl
    unfold threadStep
    dsimp only
    rw [hdata]
    exact ⟨_, _, _, rfl, rfl, rfl, Nat.lt_succ_self 5⟩
  | checking ioData client =>
    obtain ⟨found, hfound⟩ := findClient_of_known h (h.known _ hmem client rfl)
    unfold threadStep
    dsimp only
    rw [hfound]
    refine ⟨_, _, _, rfl, rfl, rfl, ?_⟩
    cases found.isClosing
    · exact Nat.lt_succ_self 4
    · exact (by decide : 3 < 5)
  | writing ioData client =>
    obtain ⟨data, hdata⟩ := hfind ioData rfl
    unfold threadStep
    dsimp only
    rw [hdata]
    exact ⟨_, _, _, rfl, rfl, rfl, Nat.lt_succ_self 3⟩
  | receiving ioData client accepting =>
    obtain ⟨-, -, -, hthreads, hmain⟩ :=
      post_pool (server.initOverlappedData ioData .RECEIVE) .RECEIVE ioData (some client) ok
    refine ⟨_, _, if accepting then .posting else .waiting, rfl, ?_, hmain, ?_⟩
    · exact congrArg (fun threads => threads.set i (if accepting then .posting else .waiting)) hthreads
    cases accepting
    · exact Nat.lt_succ_self 2
    · exact Nat.lt_succ_self 4
  | refusing ioData =>
    obtain ⟨data, hdata⟩ := hfind ioData rfl
    unfold threadStep
    dsimp only
    rw [hdata]
    exact ⟨_, _, _, rfl, rfl, rfl, Nat.lt_succ_self 5⟩
  | releasing ioData after =>
    obtain ⟨hthreads, hmain, -⟩ := releaseOverlappedData_frame server ioData
    refine ⟨_, _, _, rfl, congrArg (fun threads => threads.set i after.pc) hthreads, hmain, ?_⟩
    cases after
    · exact Nat.lt_succ_self 2
    · exact Nat.lt_succ_self 4
    · exact Nat.lt_succ_self 0
  | posting => exact ⟨_, _, _, rfl, rfl, rfl, Nat.lt_succ_self 3⟩
  | acceptEx ioData =>
    obtain ⟨-, -, -, hthreads, hmain⟩ := post_pool server .ACCEPT ioData none ok
    exact ⟨_, _, .waiting, rfl, congrArg (fun threads => threads.set i .waiting) hthreads, hmain,
      Nat.lt_succ_self 2⟩

/-- A waiting thread can take a `CLOSE_SERVER`. -/
theorem dequeue_down (h : Inv server out) {i k : Nat} {operation : Operation}
    (hthread : server.eventThreads[i]? = some .waiting) (hpending : server.pending[k]? = some operation)
    (hclose : operation.operationType = .CLOSE_SERVER) :
    ∃ server' events ioData, step server (.dequeue i k (.transferred [])) = some (server', events) ∧
      server'.eventThreads = server.eventThreads.set i (.releasing ioData .exit) ∧ server'.main = server.main := by
  have hmem : Hand.system operation ∈ server.hands :=
    List.mem_append_right _ (List.mem_cons_of_mem _ (List.mem_map_of_mem (List.mem_of_getElem? hpending)))
  obtain ⟨data, hdata, htype⟩ := h.typed _ hmem operation.ioData operation.operationType rfl rfl
  unfold step
  dsimp only
  rw [hthread, hpending]
  dsimp only
  rw [if_neg fun hne => hne.2 rfl, hdata]
  have hdispatch : dispatch data operation.client (.transferred []) = some (.releasing data.id .exit) := by
    unfold dispatch
    dsimp only
    rw [htype, hclose]
  obtain ⟨-, -, hthreads, hmain, -⟩ := fill_frame server operation (.transferred [])
  dsimp only
  rw [hdispatch]
  exact ⟨_, _, data.id, rfl, congrArg (fun threads => threads.set i (.releasing data.id .exit)) hthreads, hmain⟩

theorem countP_hands (server : Server) (p : Hand → Bool) :
    server.hands.countP p = server.eventThreads.countP (fun pc => p (.thread pc)) +
      [Hand.main server.main].countP p +
      server.pending.countP (fun operation => p (.system operation)) := by
  rw [Server.hands, List.countP_append, List.countP_cons, List.countP_map, List.countP_map, List.countP_singleton]
  simp only [Function.comp_def]
  omega

/-- What goes on while `cleanup` waits: the threads at work, the completions of `CLOSE_SERVER`, and the main
thread. -/
def Ends (server : Server) : Action → Prop
  | .thread .. | .main _ => True
  | .dequeue _ k _ => ∃ operation, server.pending[k]? = some operation ∧ operation.operationType = .CLOSE_SERVER
  | _ => False

/-- While `cleanup` waits, a `CLOSE_SERVER` is there for each thread that is not at its end. -/
theorem joining_closes (h : Inv server out) (hjoining : server.main = .joining) :
    server.eventThreads.countP (fun pc => (Hand.thread pc).closes) +
        server.pending.countP (fun operation => operation.operationType == .CLOSE_SERVER) =
      server.eventThreads.length := by
  have hcount := h.closes
  rw [countP_hands, hjoining] at hcount
  exact hcount

/-- A thread at work goes on, or one that waits takes a `CLOSE_SERVER`. -/
theorem joining_next (h : Inv server out) (hjoining : server.main = .joining)
    (hnot : ¬ ∀ pc ∈ server.eventThreads, pc = .exited) :
    ∃ action server' events, Ends server action ∧ step server action = some (server', events) ∧
      server'.main = .joining ∧ server'.rank < server.rank := by
  by_cases hwork : ∃ pc ∈ server.eventThreads, pc ≠ .waiting ∧ pc ≠ .exited
  · obtain ⟨pc, hpc, hwaiting, hexited⟩ := hwork
    obtain ⟨i, hlt, hi⟩ := List.getElem_of_mem hpc
    have hget : server.eventThreads[i]? = some pc := List.getElem?_eq_some_iff.mpr ⟨hlt, hi⟩
    obtain ⟨server', events, pc', hstep, hthreads, hmain, hdown⟩ := threadStep_down h hget hwaiting hexited true
    refine ⟨.thread i true, server', events, trivial, ?_, hmain.trans hjoining, ?_⟩
    · unfold step
      dsimp only
      rw [hget]
      exact hstep
    · have hrank := foldr_rank_set hget pc'
      rw [Server.rank, Server.rank, hthreads]
      omega
  · -- every thread waits or has ended, so a `CLOSE_SERVER` is still there for one that waits
    have hrest : ∀ pc ∈ server.eventThreads, pc = .waiting ∨ pc = .exited := fun pc hpc => by
      by_contra hneither
      rw [not_or] at hneither
      exact hwork ⟨pc, hpc, hneither⟩
    obtain ⟨pc, hpc, hexited⟩ : ∃ pc ∈ server.eventThreads, pc ≠ .exited := by
      by_contra hnone
      exact hnot fun pc hpc => by_contra fun hne => hnone ⟨pc, hpc, hne⟩
    have hpc' : pc = .waiting := (hrest pc hpc).resolve_right hexited
    subst hpc'
    have hlt : server.eventThreads.countP (fun pc => (Hand.thread pc).closes) < server.eventThreads.length := by
      refine Nat.lt_of_le_of_ne List.countP_le_length fun heq => ?_
      cases List.countP_eq_length.mp heq _ hpc
    have hcloses := joining_closes h hjoining
    obtain ⟨operation, hoperation, hclose⟩ := List.countP_pos_iff.mp
      (show 0 < server.pending.countP fun operation => operation.operationType == .CLOSE_SERVER by omega)
    obtain ⟨k, hk, hget'⟩ := List.getElem_of_mem hoperation
    obtain ⟨i, hi, hget⟩ := List.getElem_of_mem hpc
    have hpending : server.pending[k]? = some operation := List.getElem?_eq_some_iff.mpr ⟨hk, hget'⟩
    have hthread : server.eventThreads[i]? = some .waiting := List.getElem?_eq_some_iff.mpr ⟨hi, hget⟩
    obtain ⟨server', events, ioData, hstep, hthreads, hmain⟩ := dequeue_down h hthread hpending (eq_of_beq hclose)
    refine ⟨.dequeue i k (.transferred []), server', events, ⟨operation, hpending, eq_of_beq hclose⟩, hstep,
      hmain.trans hjoining, ?_⟩
    have hrank := foldr_rank_set hthread (.releasing ioData .exit)
    have hone : (ThreadPc.releasing ioData .exit).rank = 1 := rfl
    have htwo : ThreadPc.waiting.rank = 2 := rfl
    rw [Server.rank, Server.rank, hthreads]
    omega

/-- The threads end, and `cleanup` has joined them. -/
theorem joining_ends (h : Inv server out) (hjoining : server.main = .joining) :
    ∃ rest server' out', Along step Ends server rest ∧ runOps step server rest = some (server', out') ∧
      server'.main = .idle ∧ server'.eventThreads = [] := by
  have hnext : ∀ server : Server, ((∃ out, Inv server out) ∧
        (server.main = .joining ∨ server.main = .idle ∧ server.eventThreads = [])) →
      (server.main = .idle ∧ server.eventThreads = []) ∨ ∃ action server' events,
        Ends server action ∧ step server action = some (server', events) ∧
        ((∃ out, Inv server' out) ∧ (server'.main = .joining ∨ server'.main = .idle ∧ server'.eventThreads = [])) ∧
        (server'.rank + if server'.main = .joining then 1 else 0) <
          server.rank + if server.main = .joining then 1 else 0 := by
    rintro server ⟨⟨out, h⟩, hjoining | hidle⟩
    · refine .inr ?_
      by_cases hexited : ∀ pc ∈ server.eventThreads, pc = .exited
      · have hstep : step server (.main true) = some ({ server with eventThreads := [], main := .idle }, []) := by
          unfold step mainStep
          dsimp only
          rw [hjoining]
          exact if_pos hexited
        refine ⟨.main true, _, _, trivial, hstep, ⟨⟨_, step_inv h hstep⟩, .inr ⟨rfl, rfl⟩⟩, ?_⟩
        rw [if_pos hjoining]
        exact Nat.succ_pos _
      · obtain ⟨action, server', events, hends, hstep, hmain, hdown⟩ := joining_next h hjoining hexited
        refine ⟨action, server', events, hends, hstep, ⟨⟨_, step_inv h hstep⟩, .inl hmain⟩, ?_⟩
        rw [if_pos hjoining, if_pos hmain]
        omega
    · exact .inl hidle
  obtain ⟨rest, server', out', halong, hrun, -, hend⟩ :=
    reaches_of_rank _ (fun server => server.rank + if server.main = .joining then 1 else 0) hnext server
      ⟨⟨out, h⟩, .inl hjoining⟩
  exact ⟨rest, server', out', halong, hrun, hend⟩

/-- **`cleanup` never gets stuck.**  No more threads have ended than `CLOSE_SERVER` were posted, so that none
ends before `cleanup`; and while it waits for the threads, a `CLOSE_SERVER` is pending for each one that is not
at its end, and it is enough that these are completed for all of them to end. -/
theorem cleanup_never_stuck (actions : List Action) (server : Server) (out : List (List Event))
    (hrun : runOps step Server.new actions = some (server, out)) :
    server.eventThreads.countP (· == .exited) ≤ server.main.posted server.eventThreads.length ∧
      (server.main = .joining →
        server.eventThreads.countP (fun pc => (Hand.thread pc).closes) +
            server.pending.countP (fun operation => operation.operationType == .CLOSE_SERVER) =
          server.eventThreads.length ∧
        ∃ rest server' out', Along step Ends server rest ∧ runOps step server rest = some (server', out') ∧
          server'.main = .idle ∧ server'.eventThreads = []) := by
  have h := run_inv hrun
  have hcount := h.closes
  rw [countP_hands] at hcount
  have hexited : server.eventThreads.countP (· == .exited) ≤
      server.eventThreads.countP fun pc => (Hand.thread pc).closes := by
    refine List.countP_mono_left fun pc _ heq => ?_
    rw [eq_of_beq heq]
    rfl
  exact ⟨by omega, fun hjoining => ⟨joining_closes h hjoining, joining_ends h hjoining⟩⟩

/-- A server listens with two threads, and is cleaned up. -/
def stopping : List Action :=
  .startListen 2 :: .replicate 201 (.main true) ++ [.cleanup, .main true, .main true, .main true,
    .main true, .main true]

theorem stopping_joins : (runOps step Server.new stopping).map (fun run => run.1.main) =
    some .joining := by decide +kernel

theorem cleanup_never_stuck_stopping :
    ∃ server out, runOps step Server.new stopping = some (server, out) ∧ server.main = .joining ∧
      server.eventThreads.countP (· == .exited) ≤ server.main.posted server.eventThreads.length ∧
      (server.main = .joining →
        server.eventThreads.countP (fun pc => (Hand.thread pc).closes) +
            server.pending.countP (fun operation => operation.operationType == .CLOSE_SERVER) =
          server.eventThreads.length ∧
        ∃ rest server' out', Along step Ends server rest ∧ runOps step server rest = some (server', out') ∧
          server'.main = .idle ∧ server'.eventThreads = []) := by
  obtain ⟨⟨server, out⟩, hrun, hmain⟩ := Option.map_eq_some_iff.mp stopping_joins
  exact ⟨server, out, hrun, hmain, cleanup_never_stuck _ _ _ hrun⟩

end Libws.Network.Windows
