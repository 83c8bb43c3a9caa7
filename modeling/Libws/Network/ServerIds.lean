import Libws.Network.ServerAccept

/-!
# The ids of the clients

`getNextClientID` and the insertion into `allClients` (`update`, `wsNetwork/src/ServerSocket.cpp`).

* The `static` counter is one for all servers of the program: between two steps of this server the others may
  have moved it anywhere.
* `FirstFree` — the first id, behind the counter in cyclic order, that no client has;
* `addAll_spec` — what one `update` adds;
* `ids_allocated` — every call, and every run.
-/

set_option autoImplicit false

namespace Libws.Network.Accept

open Libws.Machine

/-- So many increments of the counter lead to the first id that is not in `allClients`. -/
structure FirstFree (allClients : List (UInt16 × Socket)) (nextID : UInt16) (n : Nat) : Prop where
  pos : 0 < n
  le : n ≤ 65536
  free : taken allClients (nextID + UInt16.ofNat n) = false
  first : ∀ m, 0 < m → m < n → taken allClients (nextID + UInt16.ofNat m) = true

/-! ## One id -/

theorem iterate_increment (nextID : UInt16) (n : Nat) : (· + 1)^[n] nextID = nextID + UInt16.ofNat n := by
  induction n with
  | zero => simp
  | succ n ih =>
    rw [Function.iterate_succ_apply', ih, UInt16.add_assoc]
    congr 1
    simp

/-- Fewer than 65536 increments lead to different values. -/
theorem increment_inj (nextID : UInt16) (i : Nat) (hi : i < 65536) (j : Nat) (hj : j < 65536)
    (h : nextID + UInt16.ofNat (i + 1) = nextID + UInt16.ofNat (j + 1)) : i = j := by
  have hnat := congrArg UInt16.toNat h
  simp only [UInt16.toNat_add, UInt16.toNat_ofNat'] at hnat
  omega

theorem taken_eq_true {allClients : List (UInt16 × Socket)} {id : UInt16} :
    taken allClients id = true ↔ id ∈ allClients.map Prod.fst := by
  simp [taken]

theorem exists_firstFree {allClients : List (UInt16 × Socket)} (hlt : allClients.length < 65536) (nextID : UInt16) :
    ∃ n, FirstFree allClients nextID n := by
  obtain ⟨k, hk, hfree⟩ :=
    Cyclic.exists_free (increment_inj nextID) (allClients.map Prod.fst) (by rwa [List.length_map])
  have hfree : taken allClients (nextID + UInt16.ofNat (k + 1)) = false :=
    eq_false_of_ne_true (mt taken_eq_true.mp hfree)
  obtain ⟨n, hn, hfree, hfirst⟩ :=
    Cyclic.exists_first (p := fun m => taken allClients (nextID + UInt16.ofNat (m + 1))) hfree
  refine ⟨n + 1, Nat.succ_pos n, by omega, hfree, fun m hpos hm => ?_⟩
  obtain ⟨m, rfl⟩ := Nat.exists_eq_succ_of_ne_zero (Nat.ne_of_gt hpos)
  exact hfirst m (Nat.lt_of_succ_lt_succ hm)

/-- **The call ends at the first free id**, after as many increments as lead to it. -/
theorem FirstFree.getNextClientID_eq {allClients : List (UInt16 × Socket)} {nextID : UInt16} {n fuel : Nat}
    (h : FirstFree allClients nextID n) (hfuel : n ≤ fuel) :
    getNextClientID allClients fuel nextID = some (nextID + UInt16.ofNat n) := by
  obtain ⟨n, rfl⟩ := Nat.exists_eq_succ_of_ne_zero (Nat.ne_of_gt h.pos)
  have hfree := h.free
  have hfirst : ∀ m < n, taken allClients ((· + 1)^[m + 1] nextID) = true := fun m hm => by
    rw [iterate_increment]
    exact h.first (m + 1) (Nat.succ_pos m) (Nat.succ_lt_succ hm)
  rw [Nat.succ_eq_add_one, ← iterate_increment] at hfree ⊢
  rw [Accept.getNextClientID_eq]
  exact Cyclic.search_of_free hfuel hfree hfirst

/-! ## All clients of an update -/

/-- The ids of the clients. -/
def ids (allClients : List (UInt16 × Socket)) : List UInt16 := allClients.map Prod.fst

theorem ids_concat (allClients : List (UInt16 × Socket)) (id : UInt16) (client : Socket) :
    ids (allClients ++ [(id, client)]) = ids allClients ++ [id] := List.map_append

/-- The clients that wait get ids, and are all inserted. -/
def Admits (server : Server) : Prop :=
  ∃ nextID added,
    addAll server.nextID server.allClients server.addingClients = some (nextID, server.allClients ++ added) ∧
    added.map Prod.snd = server.addingClients

/-- **One update.**  Each of the clients that wait is inserted, under an id that no other has. -/
theorem addAll_spec (addingClients : List Socket) : ∀ (nextID : UInt16) (allClients : List (UInt16 × Socket)),
    (ids allClients).Nodup → allClients.length + addingClients.length ≤ 65536 →
    ∃ nextID' added, addAll nextID allClients addingClients = some (nextID', allClients ++ added) ∧
      added.map Prod.snd = addingClients ∧ (ids (allClients ++ added)).Nodup := by
  induction addingClients with
  | nil =>
    intro nextID allClients hnodup _
    exact ⟨nextID, [], by rw [List.append_nil]; rfl, rfl, by rwa [List.append_nil]⟩
  | cons client addingClients ih =>
    intro nextID allClients hnodup hroom
    rw [List.length_cons] at hroom
    have hlt : allClients.length < 65536 := by omega
    obtain ⟨n, hfirst⟩ := exists_firstFree hlt nextID
    have hid := hfirst.getNextClientID_eq hfirst.le
    have hfree := hfirst.free
    generalize nextID + UInt16.ofNat n = id at hid hfree
    have hinsert : insert allClients id client = allClients ++ [(id, client)] := by rw [insert, hfree]; rfl
    have hnew : (ids (allClients ++ [(id, client)])).Nodup := by
      have hnot : id ∉ ids allClients := fun hmem => by
        rw [taken_eq_true.mpr hmem] at hfree
        cases hfree
      rw [ids_concat, ← List.concat_eq_append]
      exact hnodup.concat hnot
    obtain ⟨nextID', added, hrest, hsnd, hnodup'⟩ := ih id (allClients ++ [(id, client)]) hnew
      (by rw [List.length_append, List.length_singleton]; omega)
    rw [List.append_assoc] at hrest hnodup'
    refine ⟨nextID', (id, client) :: added, ?_, by rw [List.map_cons, hsnd], hnodup'⟩
    rw [addAll, hid]
    simp only [hinsert]
    exact hrest

/-! ## Runs -/

/-- A step of this server, or the other servers move the counter. -/
inductive SharedAction where
  | own (a : Action)
  | others (nextID : UInt16)

def sharedStep (server : Server) : SharedAction → Option (Server × Unit)
  | .own a => step server a
  | .others nextID => some ({ server with nextID := nextID }, ())

/-- Fewer than 65536 clients live whenever `update` asks for an id. -/
def Room (server : Server) : SharedAction → Prop
  | .own (.update _) => server.main = .adding → server.allClients.length + server.addingClients.length ≤ 65536
  | .own (.accept _) | .own .addClient | .others _ => True

instance (server : Server) : DecidablePred (Room server)
  | .own (.update _) =>
    inferInstanceAs
      (Decidable (server.main = .adding → server.allClients.length + server.addingClients.length ≤ 65536))
  | .own (.accept _) | .own .addClient | .others _ => isTrue trivial

theorem updateStep_ids {server server' : Server} {isClosing : Bool} (h : (ids server.allClients).Nodup)
    (hroom : server.main = .adding → server.allClients.length + server.addingClients.length ≤ 65536)
    (hstep : updateStep server isClosing = some server') : (ids server'.allClients).Nodup := by
  cases hpc : server.main with
  | idle =>
    simp only [updateStep, hpc] at hstep
    split at hstep <;> cases hstep <;> exact h
  | adding =>
    obtain ⟨nextID, added, hadd, -, hnodup⟩ :=
      addAll_spec server.addingClients server.nextID server.allClients h (hroom hpc)
    simp only [updateStep, hpc, hadd] at hstep
    cases hstep
    exact hnodup
  | iterating iter =>
    simp only [updateStep, hpc] at hstep
    split at hstep
    · split at hstep <;> cases hstep
      · exact h.sublist ((List.eraseIdx_sublist _ _).map _)
      · exact h
    · cases hstep
      exact h

theorem sharedStep_ids {server server' : Server} {a : SharedAction} {r : Unit} (h : (ids server.allClients).Nodup)
    (hroom : Room server a) (hstep : sharedStep server a = some (server', r)) : (ids server'.allClients).Nodup := by
  cases a with
  | others nextID =>
    cases hstep
    exact h
  | own a =>
    cases a with
    | update isClosing =>
      obtain ⟨server₁, hupdate, heq⟩ := Option.map_eq_some_iff.mp hstep
      cases heq
      exact updateStep_ids h hroom hupdate
    | accept acceptedSocket =>
      simp only [sharedStep, step] at hstep
      split at hstep
      · split at hstep <;> cases hstep
        · exact h
        · exact h
      · cases hstep
    | addClient =>
      simp only [sharedStep, step] at hstep
      split at hstep
      · cases hstep
        exact h
      · cases hstep

/-- **Every client gets an id of its own.**  A call of `getNextClientID` ends at the first free id, after at
most 65536 increments; and in every run, while fewer than 65536 clients live whenever it is called, the ids in
`allClients` are different, and `update` inserts all clients that wait. -/
theorem ids_allocated :
    (∀ (allClients : List (UInt16 × Socket)) (nextID : UInt16), allClients.length < 65536 →
      ∃ n, FirstFree allClients nextID n ∧ getNextClientID allClients n nextID = some (nextID + UInt16.ofNat n)) ∧
    ∀ (maxConnection : UInt16) (actions : List SharedAction) (server : Server) (out : List Unit),
      runOps sharedStep (.new maxConnection) actions = some (server, out) →
      Along sharedStep Room (.new maxConnection) actions →
      (ids server.allClients).Nodup ∧
        (server.allClients.length + server.addingClients.length ≤ 65536 → Admits server) := by
  constructor
  · intro allClients nextID hlt
    obtain ⟨n, hfirst⟩ := exists_firstFree hlt nextID
    exact ⟨n, hfirst, hfirst.getNextClientID_eq (Nat.le_refl n)⟩
  · intro maxConnection actions server out hrun hroom
    have hnodup := runOps_trace (fun (server : Server) _ _ => (ids server.allClients).Nodup)
      (fun _ _ _ _ _ _ h hok hstep => sharedStep_ids h hok hstep) actions (.new maxConnection) server [] [] out
      List.nodup_nil hroom hrun
    refine ⟨hnodup, fun hlen => ?_⟩
    obtain ⟨nextID, added, hadd, hsnd, -⟩ :=
      addAll_spec server.addingClients server.nextID server.allClients hnodup hlen
    exact ⟨nextID, added, hadd, hsnd⟩

/-- Two clients, the second one when another server has left the counter in front of the id of the first. -/
def twoClients : List SharedAction :=
  [.own (.accept 5), .own .addClient, .own (.update false), .own (.update false), .own (.update false),
    .own (.update false), .others 0, .own (.accept 6), .own .addClient, .own (.update false), .own (.update false)]

theorem ids_allocated_two :
    (∃ n, FirstFree [(0, 5)] 65535 n ∧ getNextClientID [(0, 5)] n 65535 = some (65535 + UInt16.ofNat n)) ∧
      ∃ server out, runOps sharedStep (.new 8) twoClients = some (server, out) ∧
        server.allClients = [(1, 5), (2, 6)] ∧ (ids server.allClients).Nodup := by
  refine ⟨ids_allocated.1 [(0, 5)] 65535 (by decide), ?_⟩
  have hclients : (runOps sharedStep (.new 8) twoClients).map (·.1.allClients) = some [(1, 5), (2, 6)] := by
    decide +kernel
  obtain ⟨⟨server, out⟩, hrun, hserver⟩ := Option.map_eq_some_iff.mp hclients
  exact ⟨server, out, hrun, hserver, (ids_allocated.2 8 twoClients server out hrun (by decide +kernel)).1⟩

end Libws.Network.Accept
