import Libws.Lib.Lives
import Libws.Lib.Trace
import Libws.Network.ServerClients

/-!
# The life of a client on the Linux server

A connection is refused, or it has a client: which waits for the next `update`, is connected there, served, and
destroyed once.

* `Life` — what a connection goes through, as a life cycle of the events of a run;
* `Accounts` — where a connection is found in each part of its life, and how long its client was idle;
* `Inv` — what every step keeps;
* `clients_live_once` — **no event ever comes out of turn**, and the server has each connection where its life says;
* `events_due` — what holds in front of each event: who `update` kicks for `kickTime`, and who it and `cleanup`
  leave.
-/

set_option autoImplicit false

namespace Libws.Network.Clients

open Libws.Lives Libws.Machine Libws.Trace

inductive Life where
  /-- no client was made for it so far -/
  | unknown
  | refused
  /-- waiting for the next `update` -/
  | waiting
  | connected
  | destroyed
  deriving DecidableEq, Repr

/-- The connection that an event is about. -/
def Event.conn : Event → Option Nat
  | .refused conn | .createClient conn _ | .onClientConnected conn | .onRecv conn _ | .kicked conn _
  | .onClientDestroyed conn => some conn
  | .updated _ | .cleanedUp => none

def Life.next : Life → Event → Option Life
  | .unknown, .refused _ => some .refused
  | .unknown, .createClient .. => some .waiting
  | .waiting, .onClientConnected _ => some .connected
  | .connected, .onRecv .. | .connected, .kicked .. => some .connected
  | .connected, .onClientDestroyed _ => some .destroyed
  | _, _ => none

def lives : LifeCycle Nat Event Life := ⟨Event.conn, .unknown, Life.next⟩

/-- The life of a connection after the events of a run; none if one came out of turn. -/
def lifeOf (conn : Nat) (out : List (Option Event)) : Option Life := lives.after conn (out.filterMap id)

/-- The time of an event that counts as activity of a connection. -/
def Event.activity (conn : Nat) : Event → Option UInt64
  | .createClient active now | .onRecv active now => if active = conn then some now else none
  | _ => none

/-- When a connection was last active. -/
def lastActive (conn : Nat) (out : List (Option Event)) : Option UInt64 :=
  (out.filterMap fun e => e.bind (Event.activity conn)).getLast?

theorem lastActive_concat (conn : Nat) (out : List (Option Event)) (e : Option Event) :
    lastActive conn (out ++ [e]) = (e.bind (Event.activity conn)).or (lastActive conn out) := by
  rw [lastActive, List.filterMap_append, List.getLast?_append, lastActive]
  cases hactivity : e.bind (Event.activity conn) with
  | none => simp [hactivity]
  | some time => simp [hactivity]

/-! ## Where a connection is found -/

/-- A connection that has a client, and when its client was last active. -/
def Client.entry (client : Client) : Nat × UInt64 := (client.conn, client.lastActiveTime)

namespace Server

variable (server : Server)

/-- The clients that the program was told of, and that are not yet destroyed. -/
def served : List (Nat × UInt64) := (server.main.hand ++ server.main.live server.allClients).map Client.entry

/-- The clients that `update` has not met. -/
def waiting : List (Nat × UInt64) := (server.addingClients ++ server.socket.hand).map Client.entry

/-- The connection that `createClient` is about to be called for. -/
def held : List Nat := server.socket.held

end Server

/-- All connections that the server has. -/
def connections (held : List Nat) (waiting served : List (Nat × UInt64)) : List Nat :=
  held ++ (waiting ++ served).map Prod.fst

/-- Where a connection is found in each part of its life. -/
def Fits (accepted : Nat) (held : List Nat) (waiting served : List (Nat × UInt64)) (conn : Nat) : Life → Prop
  | .unknown => accepted ≤ conn ∨ conn ∈ held
  | .waiting => ∃ time, (conn, time) ∈ waiting
  | .connected => ∃ time, (conn, time) ∈ served
  | .refused | .destroyed => conn < accepted ∧ conn ∉ connections held waiting served

/-- Each connection is in one place, the one that its life tells. -/
structure Accounts (accepted : Nat) (held : List Nat) (waiting served : List (Nat × UInt64))
    (out : List (Option Event)) :
    Prop where
  nodup : (connections held waiting served).Nodup
  bound : ∀ conn ∈ connections held waiting served, conn < accepted
  lives : ∃ phase, Follows lives phase (out.filterMap id) ∧
    ∀ conn, Fits accepted held waiting served conn (phase conn)
  active : ∀ client ∈ waiting ++ served, lastActive client.1 out = some client.2

section Accounts

variable {accepted accepted' : Nat} {held held' : List Nat} {waiting waiting' served served' : List (Nat × UInt64)}
  {out : List (Option Event)}

theorem mem_connections {conn : Nat} :
    conn ∈ connections held waiting served ↔
      conn ∈ held ∨ (∃ time, (conn, time) ∈ waiting) ∨ ∃ time, (conn, time) ∈ served := by
  simp [connections]

/-- A connection is in one place. -/
theorem Accounts.place (h : Accounts accepted held waiting served out) (conn : Nat) :
    ¬ ((accepted ≤ conn ∨ conn ∈ held) ∧ ∃ time, (conn, time) ∈ waiting) ∧
      ¬ ((accepted ≤ conn ∨ conn ∈ held) ∧ ∃ time, (conn, time) ∈ served) ∧
      ¬ ((∃ time, (conn, time) ∈ waiting) ∧ ∃ time, (conn, time) ∈ served) := by
  have hbound := h.bound conn
  rw [mem_connections] at hbound
  have hnodup := h.nodup
  rw [connections, List.nodup_append, List.map_append, List.nodup_append] at hnodup
  have hwaiting : (∃ time, (conn, time) ∈ waiting) ↔ conn ∈ waiting.map Prod.fst := by simp
  have hserved : (∃ time, (conn, time) ∈ served) ↔ conn ∈ served.map Prod.fst := by simp
  rw [hwaiting, hserved] at hbound ⊢
  grind

/-- The place tells the life but for what is over. -/
theorem Accounts.life_eq (life life' : Life) (h : Accounts accepted held waiting served out) {conn : Nat}
    (hlife : Fits accepted held waiting served conn life) (hlife' : Fits accepted held waiting served conn life')
    (hnow : life ≠ .refused ∧ life ≠ .destroyed) : life' = life := by
  obtain ⟨hunknown, hserved, hwaiting⟩ := h.place conn
  have hmem := @mem_connections held waiting served conn
  cases life <;> cases life' <;> simp only [Fits, hmem] at hlife hlife' <;> grind

/-- Lists that hold the same clients. -/
theorem Accounts.perm (h : Accounts accepted held waiting served out) (hwaiting : waiting'.Perm waiting)
    (hserved : served'.Perm served) : Accounts accepted held waiting' served' out := by
  have hclients : (waiting' ++ served').Perm (waiting ++ served) := hwaiting.append hserved
  have hperm : (connections held waiting' served').Perm (connections held waiting served) :=
    (hclients.map Prod.fst).append_left held
  refine ⟨hperm.nodup_iff.mpr h.nodup, fun conn hconn => h.bound conn (hperm.mem_iff.mp hconn), ?_,
    fun client hclient =>
    h.active client (hclients.mem_iff.mp hclient)⟩
  obtain ⟨phase, hfollows, hfits⟩ := h.lives
  refine ⟨phase, hfollows, fun conn => ?_⟩
  have hfit := hfits conn
  cases hlife : phase conn <;> rw [hlife] at hfit <;>
    simp only [Fits, hperm.mem_iff, hwaiting.mem_iff, hserved.mem_iff] at hfit ⊢ <;> exact hfit

/-- A step that is no event. -/
theorem Accounts.silent (h : Accounts accepted held waiting served out) :
    Accounts accepted held waiting served (out ++ [none]) := by
  obtain ⟨phase, hfollows, hfits⟩ := h.lives
  refine ⟨h.nodup, h.bound, ⟨phase, by simpa using hfollows, hfits⟩, fun client hclient => ?_⟩
  rw [lastActive_concat]
  exact h.active client hclient

theorem Accounts.same (h : Accounts accepted held waiting served out) (hwaiting : waiting'.Perm waiting)
    (hserved : served'.Perm served) : Accounts accepted held waiting' served' (out ++ [none]) :=
  (h.perm hwaiting hserved).silent

/-- The life of a connection after all events. -/
theorem Accounts.lifeOf (h : Accounts accepted held waiting served out) (conn : Nat) :
    ∃ life, lifeOf conn out = some life ∧ Fits accepted held waiting served conn life := by
  obtain ⟨phase, hfollows, hfits⟩ := h.lives
  exact ⟨phase conn, hfollows conn, hfits conn⟩

theorem Accounts.connected (h : Accounts accepted held waiting served out) {conn : Nat}
    (hconn : Clients.lifeOf conn out = some .connected) : ∃ time, (conn, time) ∈ served := by
  obtain ⟨life, hlife, hfits⟩ := h.lifeOf conn
  cases hconn.symm.trans hlife
  exact hfits

/-- **One event.**  It has its turn in the life that the place of its connection tells, and the others stay. -/
theorem Accounts.event (life life' : Life) (h : Accounts accepted held waiting served out) {e : Event} {conn : Nat}
    (he : e.conn = some conn) (hlife : Fits accepted held waiting served conn life)
    (hnext : life.next e = some life')
    (hnodup : (connections held' waiting' served').Nodup)
    (hbound : ∀ conn ∈ connections held' waiting' served', conn < accepted')
    (hlife' : Fits accepted' held' waiting' served' conn life')
    (hactive : ∀ time, (conn, time) ∈ waiting' ++ served' →
      e.activity conn = some time ∨ e.activity conn = none ∧ (conn, time) ∈ waiting ++ served)
    (hothers : ∀ other ≠ conn, (accepted' ≤ other ↔ accepted ≤ other) ∧ (other ∈ held' ↔ other ∈ held) ∧
      ∀ time, ((other, time) ∈ waiting' ↔ (other, time) ∈ waiting) ∧ ((other, time) ∈ served' ↔
        (other, time) ∈ served)) :
    Accounts accepted' held' waiting' served' (out ++ [some e]) := by
  refine ⟨hnodup, hbound, ?_, ?_⟩
  · obtain ⟨phase, hfollows, hfits⟩ := h.lives
    have hnow : life ≠ .refused ∧ life ≠ .destroyed := by
      constructor <;> rintro rfl <;> cases e <;> cases hnext
    have hphase : phase conn = life := Accounts.life_eq life _ h hlife (hfits conn) hnow
    refine ⟨Function.update phase conn life', ?_, fun other => ?_⟩
    · rw [List.filterMap_append]
      exact hfollows.event he (by rw [hphase]; exact hnext)
    · by_cases hother : other = conn
      · subst hother
        rw [Function.update_self]
        exact hlife'
      · rw [Function.update_of_ne hother]
        obtain ⟨haccepted, hheld, hclients⟩ := hothers other hother
        have hlt : other < accepted' ↔ other < accepted := by omega
        have hfit := hfits other
        cases hlife : phase other <;> rw [hlife] at hfit <;>
          simp only [Fits, mem_connections, haccepted, hlt, hheld, hclients] at hfit ⊢ <;> exact hfit
  · rintro ⟨other, time⟩ hclient
    rw [lastActive_concat, Option.bind_some]
    by_cases hother : other = conn
    · subst hother
      rcases hactive time hclient with hnew | ⟨hnone, hold⟩
      · rw [hnew, Option.some_or]
      · rw [hnone, Option.none_or]
        exact h.active (other, time) hold
    · have hold : (other, time) ∈ waiting ++ served := by
        obtain ⟨-, -, hclients⟩ := hothers other hother
        simpa only [List.mem_append, hclients] using hclient
      have hnone : e.activity other = none := by
        cases e <;> simp_all [Event.activity, Event.conn, eq_comm]
      rw [hnone, Option.none_or]
      exact h.active (other, time) hold

/-- `accept4` returns a socket that is not over the limit. -/
theorem Accounts.take (h : Accounts accepted [] waiting served out) :
    Accounts (accepted + 1) [accepted] waiting served (out ++ [none]) := by
  have hnew : accepted ∉ connections [] waiting served := fun hmem => Nat.lt_irrefl _ (h.bound accepted hmem)
  obtain ⟨phase, hfollows, hfits⟩ := h.lives
  refine Accounts.silent ⟨List.nodup_cons.mpr ⟨hnew, h.nodup⟩, fun conn hconn => ?_, ⟨phase, hfollows, fun conn => ?_⟩,
    h.active⟩
  · rcases List.mem_cons.mp hconn with rfl | hold
    · exact Nat.lt_succ_self conn
    · exact Nat.lt_succ_of_lt (h.bound conn hold)
  · have hfit := hfits conn
    have hcons : conn ∈ connections [accepted] waiting served ↔
      conn = accepted ∨ conn ∈ connections [] waiting served :=
      List.mem_cons
    cases hlife : phase conn <;> rw [hlife] at hfit <;> simp only [Fits, hcons, List.mem_singleton, List.not_mem_nil,
      or_false, not_or] at hfit ⊢
    · omega
    · exact ⟨by omega, by omega, hfit.2⟩
    · exact hfit
    · exact hfit
    · exact ⟨by omega, by omega, hfit.2⟩

/-- `accept4` returns a socket at the limit. -/
theorem Accounts.refuse (h : Accounts accepted [] waiting served out) :
    Accounts (accepted + 1) [] waiting served (out ++ [some (.refused accepted)]) := by
  have hnew : accepted ∉ connections [] waiting served := fun hmem => Nat.lt_irrefl _ (h.bound accepted hmem)
  exact Accounts.event .unknown .refused h rfl (Or.inl (Nat.le_refl _)) rfl h.nodup
    (fun conn hconn => Nat.lt_succ_of_lt (h.bound conn hconn)) ⟨Nat.lt_succ_self _, hnew⟩
    (fun _ hclient => Or.inr ⟨rfl, hclient⟩) fun other hother => ⟨by omega, Iff.rfl, fun _ => ⟨Iff.rfl, Iff.rfl⟩⟩

theorem Accounts.create {conn : Nat} (h : Accounts accepted [conn] waiting served out) (now : UInt64) :
    Accounts accepted [] (waiting ++ [(conn, now)]) served (out ++ [some (.createClient conn now)]) := by
  have hperm : (connections [] (waiting ++ [(conn, now)]) served).Perm (connections [conn] waiting served) := by
    have hmiddle : (waiting ++ [(conn, now)] ++ served).Perm ((conn, now) :: (waiting ++ served)) := by
      rw [List.append_assoc]
      exact List.perm_middle
    exact hmiddle.map Prod.fst
  refine Accounts.event .unknown .waiting h rfl (Or.inr (List.mem_singleton_self conn)) rfl
    (hperm.nodup_iff.mpr h.nodup) (fun other hother => h.bound other (hperm.mem_iff.mp hother))
    ⟨now, List.mem_append_right waiting (List.mem_singleton_self _)⟩ ?_ ?_
  · intro time hclient
    have hnone := h.place conn
    simp only [List.mem_singleton, or_true, true_and, not_exists] at hnone
    simp only [List.mem_append, List.mem_singleton, Prod.mk.injEq, true_and, hnone, false_or, or_false] at hclient
    rw [hclient]
    exact Or.inl (if_pos rfl)
  · intro other hother
    simp [hother]

theorem Accounts.connect {conn : Nat} {time : UInt64}
    (h : Accounts accepted held ((conn, time) :: waiting) served out) :
    Accounts accepted held waiting ((conn, time) :: served) (out ++ [some (.onClientConnected conn)]) := by
  have hclients : (waiting ++ (conn, time) :: served).Perm ((conn, time) :: waiting ++ served) := List.perm_middle
  have hperm : (connections held waiting ((conn, time) :: served)).Perm (connections held ((conn, time) :: waiting) served) :=
    (hclients.map Prod.fst).append_left held
  refine Accounts.event .waiting .connected h rfl ⟨time, List.mem_cons_self ..⟩ rfl (hperm.nodup_iff.mpr h.nodup)
    (fun other hother => h.bound other (hperm.mem_iff.mp hother)) ⟨time, List.mem_cons_self ..⟩
    (fun _ hclient => Or.inr ⟨rfl, hclients.mem_iff.mp hclient⟩) fun other hother => ?_
  simp [hother]

/-- Something is done to a client that is served, and it may be active. -/
theorem Accounts.serve {e : Event} {conn : Nat} {time time' : UInt64}
    (h : Accounts accepted held waiting served out) (hold : served.Perm ((conn, time) :: served'))
    (he : e.conn = some conn) (hnext : Life.connected.next e = some .connected)
    (hactive : e.activity conn = some time' ∨ e.activity conn = none ∧ time' = time) :
    Accounts accepted held waiting ((conn, time') :: served') (out ++ [some e]) := by
  have hall := h.perm (.refl _) hold.symm
  have hsame : connections held waiting ((conn, time') :: served') =
    connections held waiting ((conn, time) :: served') := by
    simp [connections]
  have honce : conn ∉ connections held waiting served' := by
    have hperm : (connections held waiting ((conn, time) :: served')).Perm (conn :: connections held waiting served') := by
      have hclients : (waiting ++ (conn, time) :: served').Perm ((conn, time) :: (waiting ++ served')) :=
        List.perm_middle
      exact ((hclients.map Prod.fst).append_left held).trans List.perm_middle
    exact (List.nodup_cons.mp (hperm.nodup_iff.mp hall.nodup)).1
  refine Accounts.event .connected .connected hall he ⟨time, List.mem_cons_self ..⟩ hnext (hsame ▸ hall.nodup)
    (hsame ▸ hall.bound) ⟨time', List.mem_cons_self ..⟩ ?_ fun other hother => by simp [hother]
  intro now hclient
  simp only [mem_connections, not_or, not_exists] at honce
  simp only [List.mem_append, List.mem_cons, Prod.mk.injEq, true_and, honce, false_or, or_false] at hclient
  rw [hclient]
  rcases hactive with hnow | ⟨hnone, rfl⟩
  · exact Or.inl hnow
  · exact Or.inr ⟨hnone, List.mem_append_right _ (List.mem_cons_self ..)⟩

theorem Accounts.destroy {conn : Nat} {time : UInt64} (h : Accounts accepted held waiting served out)
    (hperm : served.Perm ((conn, time) :: served')) :
    Accounts accepted held waiting served' (out ++ [some (.onClientDestroyed conn)]) := by
  have hclients : (waiting ++ served).Perm ((conn, time) :: (waiting ++ served')) :=
    (hperm.append_left waiting).trans List.perm_middle
  have hall : (connections held waiting served).Perm (conn :: connections held waiting served') :=
    ((hclients.map Prod.fst).append_left held).trans List.perm_middle
  have hnodup := List.nodup_cons.mp (hall.nodup_iff.mp h.nodup)
  have hbound := fun other hother => h.bound other (hall.mem_iff.mpr hother)
  have hfrom : (conn, time) ∈ served := hperm.mem_iff.mpr (List.mem_cons_self ..)
  refine Accounts.event .connected .destroyed h rfl ⟨time, hfrom⟩ rfl hnodup.2
    (fun other hother => hbound other (List.mem_cons_of_mem _ hother))
    ⟨hbound conn (List.mem_cons_self ..), hnodup.1⟩ ?_ fun other hother => ?_
  · exact fun _ hclient => Or.inr ⟨rfl, hclients.mem_iff.mpr (List.mem_cons_of_mem _ hclient)⟩
  · simp [hperm.mem_iff, hother]

/-- An event about no connection. -/
theorem Accounts.other {e : Event} (h : Accounts accepted held waiting served out) (he : e.conn = none) :
    Accounts accepted held waiting served (out ++ [some e]) := by
  obtain ⟨phase, hfollows, hfits⟩ := h.lives
  refine ⟨h.nodup, h.bound, ⟨phase, ?_, hfits⟩, fun client hclient => ?_⟩
  · rw [List.filterMap_append]
    exact hfollows.other he
  · rw [lastActive_concat]
    cases e with
    | updated now => exact h.active client hclient
    | cleanedUp => exact h.active client hclient
    | _ => cases he

end Accounts

/-! ## Every step -/

/-- A client is not idle for too long at the time `now`. -/
def Fresh (kickTime now : UInt64) (client : Client) : Prop := kickTime = 0 ∨ now - client.lastActiveTime ≤ kickTime

/-- The clients that `update` is through with are not idle for too long, and the next one is closed if it is. -/
def MainPc.Visited (kickTime : UInt64) (allClients : List Client) : MainPc → Prop
  | .visiting now iter | .clearing now iter | .destroying now iter =>
    ∀ client ∈ allClients.take iter, Fresh kickTime now client
  | .receiving now iter | .flushing now iter | .testing now iter =>
    (∀ client ∈ allClients.take iter, Fresh kickTime now client) ∧
      ∀ client, allClients[iter]? = some client → client.isClosing = true ∨ Fresh kickTime now client
  | _ => True

/-- What holds in front of an event. -/
def Due (kickTime : UInt64) : Option Event → List (Option Event) → Prop
  | some (.kicked conn now), before =>
    kickTime ≠ 0 ∧ ∃ time, lastActive conn before = some time ∧ kickTime < now - time
  | some (.updated now), before =>
    kickTime ≠ 0 → ∀ conn, lifeOf conn before = some .connected →
      ∃ time, lastActive conn before = some time ∧ now - time ≤ kickTime
  | some .cleanedUp, before => ∀ conn, lifeOf conn before ≠ some .connected
  | _, _ => True

/-- What holds after the events `out`. -/
structure Inv (kickTime : UInt64) (server : Server) (out : List (Option Event)) : Prop where
  config : server.config.kickTime = kickTime
  accounts : Accounts server.accepted server.held server.waiting server.served out
  /-- nobody has the id of the client that is told to the program -/
  free : ∀ client ∈ server.main.hand, server.getClient client.id = none
  visited : server.main.Visited kickTime server.allClients
  due : Before (Due kickTime) out

theorem init_inv (cfg : ServerConfig) : Inv cfg.kickTime (init cfg) [] := by
  refine ⟨?_, ⟨List.nodup_nil, ?_, ⟨fun _ => .unknown, follows_nil fun _ => rfl, ?_⟩, ?_⟩, ?_,
    trivial, before_nil _⟩
  · rw [init]
    split <;> rfl
  · exact fun conn hconn => absurd hconn List.not_mem_nil
  · exact fun conn => Or.inl (Nat.zero_le conn)
  · exact fun client hclient => absurd hclient List.not_mem_nil
  · exact fun client hclient => absurd hclient List.not_mem_nil

/-- What the program, `kickClient` and the socket thread do to a client. -/
def Harmless (f : Client → Client) : Prop :=
  ∀ client, (f client).entry = client.entry ∧ (f client).id = client.id ∧
    (client.isClosing = true → (f client).isClosing = true)

theorem harmless_close : Harmless fun client => { client with isClosing := true } :=
  fun _ => ⟨rfl, rfl, fun _ => rfl⟩

theorem harmless_newData : Harmless fun client => { client with hasNewData := true } := fun _ => ⟨rfl, rfl, id⟩

theorem Harmless.at {f : Client → Client} (hf : Harmless f) (conn : Nat) :
    Harmless fun client => if client.conn = conn then f client else client := by
  intro client
  dsimp only
  split
  · exact hf client
  · exact ⟨rfl, rfl, id⟩

theorem Harmless.map_entry {f : Client → Client} (hf : Harmless f) (clients : List Client) :
    (clients.map f).map Client.entry = clients.map Client.entry := by
  rw [List.map_map]
  exact List.map_congr_left fun client _ => (hf client).1

theorem Harmless.find {f : Client → Client} (hf : Harmless f) (clients : List Client) (clientID : UInt16) :
    (clients.map f).find? (fun client => client.id == clientID) =
      (clients.find? fun client => client.id == clientID).map f := by
  rw [List.find?_map]
  congr 2
  funext client
  rw [Function.comp_apply, (hf client).2.1]

theorem Harmless.fresh {f : Client → Client} (hf : Harmless f) {kickTime now : UInt64} {client : Client}
    (h : Fresh kickTime now client) : Fresh kickTime now (f client) := by
  have htime : (f client).lastActiveTime = client.lastActiveTime := congrArg Prod.snd (hf client).1
  rwa [Fresh, htime]

theorem SocketPc.hand_map (f : Client → Client) (socket : SocketPc) : (socket.map f).hand = socket.hand.map f := by
  cases socket <;> rfl

theorem SocketPc.held_map (f : Client → Client) (socket : SocketPc) : (socket.map f).held = socket.held := by
  cases socket <;> rfl

theorem MainPc.hand_map (f : Client → Client) (main : MainPc) : (main.map f).hand = main.hand.map f := by
  cases main <;> rfl

theorem MainPc.live_map (f : Client → Client) (clients : List Client) (main : MainPc) :
    (main.map f).live (clients.map f) = (main.live clients).map f := by
  cases main with
  | destroying now iter => exact List.eraseIdx_map f clients iter
  | cleaning iter => exact List.map_drop.symm
  | _ => rfl

theorem Harmless.visited {f : Client → Client} (hf : Harmless f) {kickTime : UInt64}
    {clients : List Client} {main : MainPc}
    (h : main.Visited kickTime clients) : (main.map f).Visited kickTime (clients.map f) := by
  have htake : ∀ {now iter}, (∀ client ∈ clients.take iter, Fresh kickTime now client) →
      ∀ client ∈ (clients.map f).take iter, Fresh kickTime now client := by
    intro now iter hfresh client hclient
    rw [← List.map_take] at hclient
    obtain ⟨old, hold, rfl⟩ := List.mem_map.mp hclient
    exact hf.fresh (hfresh old hold)
  have hnext : ∀ {now : UInt64} {iter : Nat},
      (∀ client, clients[iter]? = some client → client.isClosing = true ∨ Fresh kickTime now client) →
      ∀ client, (clients.map f)[iter]? = some client → client.isClosing = true ∨ Fresh kickTime now client := by
    intro now iter hone client hclient
    rw [List.getElem?_map, Option.map_eq_some_iff] at hclient
    obtain ⟨old, hold, rfl⟩ := hclient
    exact (hone old hold).imp (hf old).2.2 hf.fresh
  cases main with
  | visiting now iter => exact htake h
  | clearing now iter => exact htake h
  | destroying now iter => exact htake h
  | receiving now iter => exact ⟨htake h.1, hnext h.2⟩
  | flushing now iter => exact ⟨htake h.1, hnext h.2⟩
  | testing now iter => exact ⟨htake h.1, hnext h.2⟩
  | _ => trivial

theorem modify_inv {kickTime : UInt64} {server : Server} {out : List (Option Event)} (h : Inv kickTime server out)
    (conn : Nat) {f : Client → Client} (hf : Harmless f) : Inv kickTime (server.modify conn f) (out ++ [none]) := by
  have hchange := hf.at conn
  have hserved : (server.modify conn f).served = server.served := by
    rw [Server.served, Server.modify, MainPc.hand_map, MainPc.live_map, ← List.map_append,
      hchange.map_entry, Server.served]
  have hwaiting : (server.modify conn f).waiting = server.waiting := by
    rw [Server.waiting, Server.modify, SocketPc.hand_map, ← List.map_append, hchange.map_entry, Server.waiting]
  have hheld : (server.modify conn f).held = server.held := SocketPc.held_map _ _
  refine ⟨h.config, ?_, fun client hclient => ?_, hchange.visited h.visited, h.due.concat trivial⟩
  · rw [hheld]
    exact h.accounts.same (.of_eq hwaiting) (.of_eq hserved)
  · rw [Server.modify, MainPc.hand_map] at hclient
    obtain ⟨client, hold, rfl⟩ := List.mem_map.mp hclient
    rw [Server.getClient, Server.modify, hchange.find, (hchange client).2.1]
    exact Option.map_eq_none_iff.mpr (h.free client hold)

theorem socketStep_inv {kickTime : UInt64} {server server' : Server} {out : List (Option Event)} {e : Option Event}
    (action : Action) (h : Inv kickTime server out) (hstep : socketStep server action = some (server', e)) :
    Inv kickTime server' (out ++ [e]) := by
  obtain ⟨hconfig, haccounts, hfree, hvisited, hdue⟩ := h
  obtain ⟨config, allClients, addingClients, numClients, nextID, isRunning, socket, main, accepted, tick⟩ := server
  cases action with
  | accept =>
    cases socket with
    | waiting =>
      unfold socketStep at hstep
      dsimp only at hstep
      split at hstep
      · cases hstep
        exact ⟨hconfig, haccounts.take, hfree, hvisited, hdue.concat trivial⟩
      · cases hstep
        exact ⟨hconfig, haccounts.refuse, hfree, hvisited, hdue.concat trivial⟩
    | _ => cases hstep
  | createClient now =>
    cases socket with
    | accepted conn =>
      cases hstep
      refine ⟨hconfig, ?_, hfree, hvisited, hdue.concat trivial⟩
      have hwaiting : addingClients ++ SocketPc.hand (.accepted conn) = addingClients := List.append_nil _
      have hcreate : Accounts accepted [] ((addingClients ++ SocketPc.hand (.accepted conn)).map Client.entry ++ [(conn, now)])
          ((main.hand ++ main.live allClients).map Client.entry) (out ++ [some (.createClient conn now)]) :=
        haccounts.create now
      have hnew : (addingClients ++ [Client.mk conn 0 now false false]).map Client.entry =
          addingClients.map Client.entry ++ [(conn, now)] := List.map_append
      rwa [hwaiting, ← hnew] at hcreate
    | _ => cases hstep
  | addClient =>
    cases socket with
    | created client =>
      have hwaiting : addingClients ++ [client] ++ SocketPc.hand .waiting = addingClients ++ [client] :=
        List.append_nil _
      have hsame : Accounts accepted [] ((addingClients ++ [client] ++ SocketPc.hand .waiting).map Client.entry)
          ((main.hand ++ main.live allClients).map Client.entry) (out ++ [none]) := by
        rw [hwaiting]
        exact haccounts.silent
      cases main with
      | adding => cases hstep
      | connecting _ => cases hstep
      | _ =>
        cases hstep
        exact ⟨hconfig, hsame, hfree, hvisited, hdue.concat trivial⟩
    | _ => cases hstep
  | exit =>
    unfold socketStep at hstep
    dsimp only at hstep
    split at hstep
    · rename_i hexit
      obtain ⟨rfl, -⟩ := hexit
      cases hstep
      exact ⟨hconfig, haccounts.silent, hfree, hvisited, hdue.concat trivial⟩
    · cases hstep
  | _ => cases hstep

/-- Where no client is on its way to `allClients`. -/
theorem Inv.of_hand {kickTime : UInt64} {server : Server} {out : List (Option Event)} {e : Option Event}
    (hmain : server.main.hand = []) (hconfig : server.config.kickTime = kickTime)
    (haccounts : Accounts server.accepted server.held server.waiting server.served (out ++ [e]))
    (hvisited : server.main.Visited kickTime server.allClients) (hdue : Before (Due kickTime) out)
    (he : Due kickTime e out) : Inv kickTime server (out ++ [e]) :=
  have hfree : ∀ client ∈ server.main.hand, server.getClient client.id = none := by
    rw [hmain]
    exact fun client hclient => absurd hclient List.not_mem_nil
  ⟨hconfig, haccounts, hfree, hvisited, hdue.concat he⟩

theorem insert_eq {server : Server} {client : Client} (h : server.getClient client.id = none) :
    server.insert client = server.allClients ++ [client] := by
  rw [Server.insert, h]
  rfl

theorem getNextClientID_free {server : Server} {id : UInt16} (h : server.getNextClientID = some id) :
    server.getClient id = none := by
  have hfree := Accept.getNextClientID_free h
  rw [Accept.taken, List.any_map, List.any_eq_false] at hfree
  exact List.find?_eq_none.mpr hfree

section Phases

variable {accepted : Nat} {held : List Nat} {waiting : List (Nat × UInt64)} {out : List (Option Event)}
  {clients : List Client} {iter : Nat} {client client' : Client} {kickTime now : UInt64}

/-- A client that is served is set to another state, and something happens to it. -/
theorem Accounts.set {e : Event} (h : Accounts accepted held waiting (clients.map Client.entry) out)
    (hclient : clients[iter]? = some client) (hconn : client'.conn = client.conn) (he : e.conn = some client.conn)
    (hnext : Life.connected.next e = some .connected)
    (hactive : e.activity client.conn = some client'.lastActiveTime ∨
      e.activity client.conn = none ∧ client'.lastActiveTime = client.lastActiveTime) :
    Accounts accepted held waiting ((clients.set iter client').map Client.entry) (out ++ [some e]) := by
  obtain ⟨hlt, rfl⟩ := List.getElem?_eq_some_iff.mp hclient
  have hold := (List.getElem_cons_eraseIdx_perm hlt).symm.map Client.entry
  have hnew := (List.set_perm_cons_eraseIdx hlt client').map Client.entry
  have hserve := h.serve hold he hnext hactive
  rw [← hconn] at hserve
  exact hserve.perm (.refl _) hnew

theorem fresh_take_set (hfresh : ∀ client ∈ clients.take iter, Fresh kickTime now client) :
    ∀ client ∈ (clients.set iter client').take iter, Fresh kickTime now client := by
  rwa [List.take_set_of_le (Nat.le_refl iter)]

theorem eq_of_set (h : (clients.set iter client')[iter]? = some client) : client = client' := by
  rw [List.getElem?_set, if_pos rfl] at h
  split at h
  · exact (Option.some.inj h).symm
  · cases h

end Phases

/-! ### The counters of the main thread -/

section Counters

variable {kickTime now : UInt64} {iter : Nat} {server server' : Server} {out : List (Option Event)}
  {e : Option Event}

theorem adding_inv (h : Inv kickTime server out) (hpc : server.main = .adding)
    (hstep : nextStep server = some (server', e)) : Inv kickTime server' (out ++ [e]) := by
  obtain ⟨hconfig, haccounts, hfree, hvisited, hdue⟩ := h
  obtain ⟨config, allClients, addingClients, numClients, nextID, isRunning, socket, main, accepted, tick⟩ := server
  subst hpc
  cases addingClients with
  | nil =>
    cases hstep
    exact .of_hand rfl hconfig haccounts.silent trivial hdue trivial
  | cons client addingClients =>
    simp only [nextStep] at hstep
    split at hstep
    · cases hstep
    · rename_i id hid
      cases hstep
      refine ⟨hconfig, haccounts.connect, fun _ hclient => ?_, trivial, hdue.concat trivial⟩
      rw [List.mem_singleton.mp hclient]
      exact (getNextClientID_free hid :)

theorem connecting_inv {client : Client} (h : Inv kickTime server out) (hpc : server.main = .connecting client)
    (hstep : nextStep server = some (server', e)) : Inv kickTime server' (out ++ [e]) := by
  obtain ⟨hconfig, haccounts, hfree, hvisited, hdue⟩ := h
  obtain ⟨config, allClients, addingClients, numClients, nextID, isRunning, socket, main, accepted, tick⟩ := server
  subst hpc
  cases hstep
  have hinsert := insert_eq (hfree client (List.mem_singleton_self client))
  refine .of_hand rfl hconfig (haccounts.same (.refl _)
    (?_ : List.Perm (List.map Client.entry (Server.insert _ client)) _))
    trivial hdue trivial
  rw [hinsert]
  exact List.Perm.map _ (List.perm_append_comm : (allClients ++ [client]).Perm ([client] ++ allClients))

/-- The end of `allClients`: all that are left are fresh.  Before it, a client that is closing is left as it is, one
that is idle is kicked, and any other is fresh. -/
theorem visiting_inv (h : Inv kickTime server out) (hpc : server.main = .visiting now iter)
    (hstep : nextStep server = some (server', e)) : Inv kickTime server' (out ++ [e]) := by
  obtain ⟨hconfig, haccounts, hfree, hvisited, hdue⟩ := h
  obtain ⟨config, allClients, addingClients, numClients, nextID, isRunning, socket, main, accepted, tick⟩ := server
  subst hpc
  simp only [nextStep] at hstep
  split at hstep
  · rename_i hend
    cases hstep
    refine .of_hand rfl hconfig (haccounts.other rfl) trivial hdue fun hkick conn hconn => ?_
    obtain ⟨time, hserved⟩ := haccounts.connected hconn
    obtain ⟨client, hclient, hentry⟩ := List.mem_map.mp hserved
    have hactive := haccounts.active _ (List.mem_append_right _ hserved)
    have hall : allClients.take iter = allClients := List.take_of_length_le (List.getElem?_eq_none_iff.mp hend)
    have hfresh := (hvisited client (hall.symm ▸ hclient)).resolve_left hkick
    cases hentry
    exact ⟨_, hactive, hfresh⟩
  rename_i client hclient
  split at hstep
  · cases hstep
    exact .of_hand rfl hconfig haccounts.silent hvisited hdue trivial
  split at hstep
  · rename_i hidle
    cases hstep
    refine .of_hand rfl hconfig (haccounts.set hclient rfl (e := .kicked client.conn now) rfl rfl (Or.inr ⟨rfl, rfl⟩))
      ⟨fresh_take_set hvisited, fun _ hset => Or.inl (by rw [eq_of_set hset])⟩ hdue ?_
    have hactive := haccounts.active client.entry
      (List.mem_append_right _ (List.mem_map_of_mem (List.mem_of_getElem? hclient)))
    rw [← hconfig]
    exact ⟨hidle.1, _, hactive, hidle.2⟩
  · rename_i hfresh
    cases hstep
    refine .of_hand rfl hconfig haccounts.silent ⟨hvisited, fun _ hvisit => Or.inr ?_⟩ hdue trivial
    cases hclient.symm.trans hvisit
    rw [Fresh, ← hconfig, or_iff_not_imp_left]
    exact fun hkick => UInt64.not_lt.mp fun hlt => hfresh ⟨hkick, hlt⟩

theorem clearing_inv (h : Inv kickTime server out) (hpc : server.main = .clearing now iter)
    (hstep : nextStep server = some (server', e)) : Inv kickTime server' (out ++ [e]) := by
  obtain ⟨hconfig, haccounts, hfree, hvisited, hdue⟩ := h
  obtain ⟨config, allClients, addingClients, numClients, nextID, isRunning, socket, main, accepted, tick⟩ := server
  subst hpc
  simp only [nextStep] at hstep
  split at hstep
  · cases hstep
  · rename_i client hclient
    cases hstep
    refine .of_hand rfl hconfig (haccounts.set hclient rfl (e := .onRecv client.conn now) rfl rfl (Or.inl (if_pos rfl)))
      ⟨fresh_take_set hvisited, fun _ hset => Or.inr ?_⟩ hdue trivial
    rw [eq_of_set hset, Fresh, UInt64.sub_self]
    exact Or.inr UInt64.zero_le

theorem testing_inv (h : Inv kickTime server out) (hpc : server.main = .testing now iter)
    (hstep : nextStep server = some (server', e)) : Inv kickTime server' (out ++ [e]) := by
  obtain ⟨hconfig, haccounts, hfree, hvisited, hdue⟩ := h
  obtain ⟨config, allClients, addingClients, numClients, nextID, isRunning, socket, main, accepted, tick⟩ := server
  subst hpc
  simp only [nextStep] at hstep
  split at hstep
  · cases hstep
  rename_i client hclient
  split at hstep
  · cases hstep
    obtain ⟨hlt, rfl⟩ := List.getElem?_eq_some_iff.mp hclient
    exact .of_hand rfl hconfig (haccounts.destroy ((List.getElem_cons_eraseIdx_perm hlt).symm.map _)) hvisited.1 hdue trivial
  · rename_i hopen
    cases hstep
    refine .of_hand rfl hconfig haccounts.silent ?_ hdue trivial
    intro visited hmem
    rw [List.take_add_one, hclient] at hmem
    rcases List.mem_append.mp hmem with hold | hnew
    · exact hvisited.1 visited hold
    · cases Option.mem_toList.mp hnew
      exact (hvisited.2 client hclient).resolve_left hopen

theorem destroying_inv (h : Inv kickTime server out) (hpc : server.main = .destroying now iter)
    (hstep : nextStep server = some (server', e)) : Inv kickTime server' (out ++ [e]) := by
  obtain ⟨hconfig, haccounts, hfree, hvisited, hdue⟩ := h
  obtain ⟨config, allClients, addingClients, numClients, nextID, isRunning, socket, main, accepted, tick⟩ := server
  subst hpc
  cases hstep
  refine .of_hand rfl hconfig haccounts.silent ?_ hdue trivial
  have htake : (allClients.eraseIdx iter).take iter = allClients.take iter := by
    refine List.ext_getElem? fun i => ?_
    rw [List.getElem?_take, List.getElem?_take]
    split
    · rename_i hlt
      rw [List.getElem?_eraseIdx_of_lt hlt]
    · rfl
  exact fun client hclient => hvisited client (htake ▸ hclient)

theorem cleaning_inv (h : Inv kickTime server out) (hpc : server.main = .cleaning iter)
    (hstep : nextStep server = some (server', e)) : Inv kickTime server' (out ++ [e]) := by
  obtain ⟨hconfig, haccounts, hfree, hvisited, hdue⟩ := h
  obtain ⟨config, allClients, addingClients, numClients, nextID, isRunning, socket, main, accepted, tick⟩ := server
  subst hpc
  simp only [nextStep] at hstep
  split at hstep
  · rename_i hend
    cases hstep
    have hdrop : allClients.drop iter = [] := List.drop_eq_nil_iff.mpr (List.getElem?_eq_none_iff.mp hend)
    have hother : Accounts accepted socket.held ((addingClients ++ socket.hand).map Client.entry)
        ((allClients.drop iter).map Client.entry) (out ++ [some .cleanedUp]) := haccounts.other rfl
    rw [hdrop] at hother
    refine .of_hand rfl hconfig hother trivial hdue fun conn hconn => ?_
    obtain ⟨time, hserved⟩ := haccounts.connected hconn
    rw [Server.served, MainPc.live, hdrop] at hserved
    exact absurd hserved List.not_mem_nil
  · rename_i client hclient
    cases hstep
    obtain ⟨hlt, rfl⟩ := List.getElem?_eq_some_iff.mp hclient
    have hserved : List.Perm ((allClients.drop iter).map Client.entry)
        (allClients[iter].entry :: ((allClients.set iter { allClients[iter] with isClosing := true }).drop (iter + 1)).map
          Client.entry) := by
      rw [List.drop_set_of_lt (Nat.lt_succ_self iter), List.drop_eq_getElem_cons hlt]
      exact .refl _
    exact .of_hand rfl hconfig (haccounts.destroy hserved) trivial hdue trivial

/-- The flags are read, or `flushClient` runs: nothing of a client that is kept here changes. -/
theorem passing_inv (h : Inv kickTime server out)
    (hpc : (∃ now iter, server.main = .receiving now iter) ∨ ∃ now iter, server.main = .flushing now iter)
    (hstep : nextStep server = some (server', e)) : Inv kickTime server' (out ++ [e]) := by
  obtain ⟨hconfig, haccounts, hfree, hvisited, hdue⟩ := h
  obtain ⟨config, allClients, addingClients, numClients, nextID, isRunning, socket, main, accepted, tick⟩ := server
  obtain ⟨now, iter, rfl⟩ | ⟨now, iter, rfl⟩ := hpc <;> cases hstep <;>
    exact .of_hand rfl hconfig haccounts.silent hvisited hdue trivial

theorem joining_inv (h : Inv kickTime server out) (hpc : server.main = .joining)
    (hstep : nextStep server = some (server', e)) : Inv kickTime server' (out ++ [e]) := by
  obtain ⟨hconfig, haccounts, hfree, hvisited, hdue⟩ := h
  obtain ⟨config, allClients, addingClients, numClients, nextID, isRunning, socket, main, accepted, tick⟩ := server
  subst hpc
  simp only [nextStep] at hstep
  split at hstep
  · cases hstep
    exact .of_hand rfl hconfig haccounts.silent trivial hdue trivial
  · cases hstep

theorem nextStep_inv (h : Inv kickTime server out) (hstep : nextStep server = some (server', e)) :
    Inv kickTime server' (out ++ [e]) := by
  cases hpc : server.main with
  | adding => exact adding_inv h hpc hstep
  | connecting => exact connecting_inv h hpc hstep
  | visiting => exact visiting_inv h hpc hstep
  | clearing => exact clearing_inv h hpc hstep
  | testing => exact testing_inv h hpc hstep
  | destroying => exact destroying_inv h hpc hstep
  | cleaning => exact cleaning_inv h hpc hstep
  | receiving => exact passing_inv h (.inl ⟨_, _, hpc⟩) hstep
  | flushing => exact passing_inv h (.inr ⟨_, _, hpc⟩) hstep
  | joining => exact joining_inv h hpc hstep
  | _ =>
    rw [nextStep, hpc] at hstep
    cases hstep

end Counters

theorem mainStep_inv {kickTime : UInt64} {server server' : Server} {out : List (Option Event)} {e : Option Event}
    (action : Action) (h : Inv kickTime server out) (hstep : mainStep server action = some (server', e)) :
    Inv kickTime server' (out ++ [e]) := by
  obtain ⟨hconfig, haccounts, hfree, hvisited, hdue⟩ := h
  obtain ⟨config, allClients, addingClients, numClients, nextID, isRunning, socket, main, accepted, tick⟩ := server
  cases action with
  | kickClient clientID =>
    unfold mainStep at hstep
    dsimp only at hstep
    split at hstep
    · cases hstep
      rw [Server.kickClient]
      split
      · exact ⟨hconfig, haccounts.silent, hfree, hvisited, hdue.concat trivial⟩
      · exact modify_inv ⟨hconfig, haccounts, hfree, hvisited, hdue⟩ _ harmless_close
    · cases hstep
  | next => exact nextStep_inv ⟨hconfig, haccounts, hfree, hvisited, hdue⟩ hstep
  | startListen =>
    unfold mainStep at hstep
    dsimp only at hstep
    split at hstep
    · rename_i hidle
      obtain ⟨rfl, rfl⟩ := hidle
      cases hstep
      exact .of_hand rfl hconfig haccounts.silent trivial hdue trivial
    · cases hstep
  | update =>
    unfold mainStep at hstep
    dsimp only at hstep
    split at hstep
    · rename_i hidle
      obtain rfl := hidle
      cases hstep
      split
      · exact .of_hand rfl hconfig haccounts.silent trivial hdue trivial
      · exact .of_hand rfl hconfig haccounts.silent trivial hdue trivial
    · cases hstep
  | getTickCount now order =>
    unfold mainStep at hstep
    dsimp only at hstep
    split at hstep
    · rename_i hticking
      obtain ⟨rfl, horder⟩ := hticking
      cases hstep
      exact .of_hand rfl hconfig (haccounts.same (.refl _) (horder.map _))
        (fun client hclient => absurd hclient List.not_mem_nil) hdue trivial
    · cases hstep
  | cleanup =>
    unfold mainStep at hstep
    dsimp only at hstep
    split at hstep
    · rename_i hidle
      obtain rfl := hidle
      cases hstep
      split
      · exact .of_hand rfl hconfig haccounts.silent trivial hdue trivial
      · exact .of_hand rfl hconfig haccounts.silent trivial hdue trivial
    · cases hstep
  | _ => cases hstep

theorem step_inv {kickTime : UInt64} {server server' : Server} {out : List (Option Event)} {e : Option Event}
    {action : Action} (h : Inv kickTime server out) (hstep : step server action = some (server', e)) :
    Inv kickTime server' (out ++ [e]) := by
  cases action with
  | close conn =>
    cases hstep
    exact modify_inv h conn harmless_close
  | newData conn =>
    cases hstep
    exact modify_inv h conn harmless_newData
  | accept => exact socketStep_inv .accept h hstep
  | createClient now => exact socketStep_inv (.createClient now) h hstep
  | addClient => exact socketStep_inv .addClient h hstep
  | exit => exact socketStep_inv .exit h hstep
  | startListen => exact mainStep_inv .startListen h hstep
  | kickClient clientID => exact mainStep_inv (.kickClient clientID) h hstep
  | update => exact mainStep_inv .update h hstep
  | getTickCount now order => exact mainStep_inv (.getTickCount now order) h hstep
  | next => exact mainStep_inv .next h hstep
  | cleanup => exact mainStep_inv .cleanup h hstep

theorem run_inv {cfg : ServerConfig} {actions : List Action} {server : Server} {out : List (Option Event)}
    (h : runOps step (init cfg) actions = some (server, out)) : Inv cfg.kickTime server out :=
  runOps_inv (fun server _ out => Inv cfg.kickTime server out) (fun _ _ _ _ _ _ h hstep => step_inv h hstep)
    (init_inv cfg) h

/-! ## What every run does -/

/-- **Each connection lives once.**  In every order of the steps of both threads no event comes out of turn: a
client is told to the program once, before anything else is done to it, and destroyed at most once, after
everything else; and the server has the connections in the places that their lives tell. -/
theorem clients_live_once (cfg : ServerConfig) (actions : List Action) (server : Server) (out : List (Option Event))
    (h : runOps step (init cfg) actions = some (server, out)) (conn : Nat) :
    ∃ life, lifeOf conn out = some life ∧
      (life = .unknown ↔ server.accepted ≤ conn ∨ conn ∈ server.held) ∧
      (life = .waiting ↔ ∃ time, (conn, time) ∈ server.waiting) ∧
      (life = .connected ↔ ∃ time, (conn, time) ∈ server.served) := by
  have haccounts := (run_inv h).accounts
  obtain ⟨life, hlife, hfits⟩ := haccounts.lifeOf conn
  refine ⟨life, hlife, ⟨?_, fun hplace => ?_⟩, ⟨?_, fun hplace => ?_⟩, ⟨?_, fun hplace => ?_⟩⟩
  · rintro rfl
    exact hfits
  · exact Accounts.life_eq .unknown life haccounts hplace hfits ⟨by decide, by decide⟩
  · rintro rfl
    exact hfits
  · exact Accounts.life_eq .waiting life haccounts hplace hfits ⟨by decide, by decide⟩
  · rintro rfl
    exact hfits
  · exact Accounts.life_eq .connected life haccounts hplace hfits ⟨by decide, by decide⟩

/-- A client is connected, and kicked by the same `update`; another one comes. -/
def kicking : List Action :=
  [.startListen, .accept, .createClient 5, .addClient, .update, .next, .next, .next,
    .getTickCount 9 [⟨0, 1, 5, false, false⟩], .next, .next, .next, .next, .next, .accept]

theorem kicking_defined : (runOps step (init ⟨1, 3⟩) kicking).isSome := by decide +kernel

theorem clients_live_once_kicking :
    ∃ server out, runOps step (init ⟨1, 3⟩) kicking = some (server, out) ∧
      ∃ life, lifeOf 0 out = some life ∧
        (life = .unknown ↔ server.accepted ≤ 0 ∨ 0 ∈ server.held) ∧
        (life = .waiting ↔ ∃ time, (0, time) ∈ server.waiting) ∧
        (life = .connected ↔ ∃ time, (0, time) ∈ server.served) :=
  have h := (Option.some_get kicking_defined).symm
  ⟨_, _, h, clients_live_once _ _ _ _ h 0⟩

/-- **What holds in front of each event.**  `update` kicks who was last active more than `kickTime` ago; at its
end nobody is connected who was; and at the end of `cleanup` nobody is connected. -/
theorem events_due (cfg : ServerConfig) (actions : List Action) (server : Server) (out : List (Option Event))
    (h : runOps step (init cfg) actions = some (server, out)) : Before (Due cfg.kickTime) out :=
  (run_inv h).due

theorem events_due_kicking :
    ∃ server out, runOps step (init ⟨1, 3⟩) kicking = some (server, out) ∧ some (.kicked 0 9) ∈ out ∧
      Before (Due 3) out :=
  have h := (Option.some_get kicking_defined).symm
  ⟨_, _, h, by decide +kernel, events_due ⟨1, 3⟩ kicking _ _ h⟩

end Libws.Network.Clients
