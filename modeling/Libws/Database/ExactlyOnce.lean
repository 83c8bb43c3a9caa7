import Libws.Database.DBQueue

/-!
# `DBQueue` handles each request exactly once

* `places` — all the requests of a state, from those finished to those still queued;
* `Inv` — what holds after every step: each request added is in one place, and the callbacks made
  are those that its place tells;
* `step_inv` — one step; `step_fifo` — one step while there is at most one worker;
* `Overtakes` — an `update` in an `onFinish` takes requests that come after some of the outer batch;
* `each_request_once` — every run.
-/

set_option autoImplicit false

namespace Libws.Database

open Libws.Machine

/-! ## Order of callbacks -/

/-- Before each `b` of the list there is an `a`. -/
def Precedes (a b : Callback) (calls : List Callback) : Prop :=
  ∀ before after, calls = before ++ b :: after → a ∈ before

theorem precedes_nil (a b : Callback) : Precedes a b [] := by
  intro before after h
  cases before <;> cases h

theorem Precedes.concat {a b c : Callback} {calls : List Callback} (h : Precedes a b calls)
    (hc : c = b → a ∈ calls) : Precedes a b (calls ++ [c]) := by
  intro before after heq
  rcases List.eq_nil_or_concat after with rfl | ⟨after', d, rfl⟩
  · obtain ⟨rfl, hlast⟩ := List.append_inj' heq rfl
    exact hc (List.singleton_inj.mp hlast)
  · have hsplit : calls ++ [c] = (before ++ b :: after') ++ [d] := by
      rw [heq, List.concat_eq_append, List.append_assoc, List.cons_append]
    obtain ⟨heq', -⟩ := List.append_inj' hsplit rfl
    exact h before after' heq'

namespace DBQueue

/-! ## Places -/

/-- The request in a worker's hands. -/
def inHands : WorkerPc → Option Nat
  | .popped request => request
  | .got r | .calling r | .called r => some r
  | .test | .get | .exited => none

/-- The request whose `onRequest` was called and that is still in hand. -/
def begun : WorkerPc → Option Nat
  | .calling r | .called r => some r
  | .test | .get | .popped _ | .got _ | .exited => none

/-- The request whose `onRequest` has returned and that is still in hand. -/
def returned : WorkerPc → Option Nat
  | .called r => some r
  | .test | .get | .popped _ | .got _ | .calling _ | .exited => none

/-- The requests in the hands of the workers, by what `f` takes for that. -/
def hands (f : WorkerPc → Option Nat) (q : DBQueue) : List Nat := q.workerThreads.filterMap (f ·.pc)

/-- The rest of the batches of the running `update`s. -/
def batch (q : DBQueue) : List Nat := q.tmpQueues.flatten

/-- The requests in the order of their `onFinish` calls. -/
def finished (calls : List Callback) : List Nat :=
  calls.filterMap fun
    | .onFinish r => some r
    | _ => none

/-- All places of a request, from the last to the first. -/
def places (q : DBQueue) (calls : List Callback) : List Nat :=
  finished calls ++ q.batch ++ q.finishQueue ++ q.hands inHands ++ q.workQueue.filterMap id

/-- A worker that moves on changes the hands by its own. -/
theorem filterMap_set_count (f : WorkerThread → Option Nat) (w w' : WorkerThread) (r : Nat) :
    ∀ (ws : List WorkerThread) (i : Nat), ws[i]? = some w →
      ((ws.set i w').filterMap f).count r + (f w).toList.count r =
        (ws.filterMap f).count r + (f w').toList.count r
  | [], i, h => by simp at h
  | v :: ws, 0, h => by
    cases h
    simp only [List.set_cons_zero, List.filterMap_cons]
    cases f w <;> cases f w' <;>
      simp only [Option.toList, List.count_cons, List.count_nil] <;> omega
  | v :: ws, i + 1, h => by
    have ih := filterMap_set_count f w w' r ws i (by simpa using h)
    simp only [List.set_cons_succ, List.filterMap_cons]
    cases f v with
    | none => exact ih
    | some x =>
      simp only [List.count_cons]
      omega

theorem filterMap_set_same (f : WorkerThread → Option Nat) (w w' : WorkerThread) (hf : f w' = f w) :
    ∀ (ws : List WorkerThread) (i : Nat), ws[i]? = some w → (ws.set i w').filterMap f = ws.filterMap f
  | [], _, _ => rfl
  | v :: ws, 0, h => by
    cases h
    simp only [List.set_cons_zero, List.filterMap_cons, hf]
  | v :: ws, i + 1, h => by
    simp only [List.set_cons_succ, List.filterMap_cons, filterMap_set_same f w w' hf ws i (by simpa using h)]

/-- The state of a queue after the callbacks `calls`. -/
structure Inv (q : DBQueue) (calls : List Callback) : Prop where
  once : ∀ r, (finished calls).count r + q.batch.count r + q.finishQueue.count r +
    (q.hands inHands).count r + (q.workQueue.filterMap id).count r = (List.range q.added).count r
  onRequest : ∀ r, calls.count (.onRequest r) =
    (finished calls).count r + q.batch.count r + q.finishQueue.count r + (q.hands begun).count r
  onRequestReturn : ∀ r, calls.count (.onRequestReturn r) =
    (finished calls).count r + q.batch.count r + q.finishQueue.count r + (q.hands returned).count r
  requestFirst : ∀ r, Precedes (.onRequest r) (.onRequestReturn r) calls
  finishLast : ∀ r, Precedes (.onRequestReturn r) (.onFinish r) calls
  length : q.workMtx = none → q.workQueueLength = q.workQueue.length

theorem new_inv : Inv new [] :=
  ⟨fun r => by simp [finished, batch, hands, new], fun r => by simp [finished, batch, hands, new],
    fun r => by simp [finished, batch, hands, new], fun r => precedes_nil _ _,
    fun r => precedes_nil _ _, fun _ => rfl⟩

theorem setPc_hands {q : DBQueue} {i : Nat} {w : WorkerThread} (hw : q.workerThreads[i]? = some w)
    (pc : WorkerPc) (f : WorkerPc → Option Nat) (r : Nat) :
    ((q.setPc i w pc).hands f).count r + (f w.pc).toList.count r =
      (q.hands f).count r + (f pc).toList.count r :=
  filterMap_set_count (f ·.pc) w { w with pc := pc } r q.workerThreads i hw

theorem setPc_hands_same {q : DBQueue} {i : Nat} {w : WorkerThread} {pc : WorkerPc}
    {f : WorkerPc → Option Nat} (hw : q.workerThreads[i]? = some w) (hf : f pc = f w.pc) :
    (q.setPc i w pc).hands f = q.hands f :=
  filterMap_set_same (f ·.pc) w { w with pc := pc } hf q.workerThreads i hw

/-- A step without callback that leaves every request where it is. -/
theorem Inv.same {q q' : DBQueue} {calls : List Callback} (h : Inv q calls)
    (hadded : q'.added = q.added) (hbatch : q'.batch = q.batch) (hfinish : q'.finishQueue = q.finishQueue)
    (hwork : q'.workQueue.filterMap id = q.workQueue.filterMap id)
    (hin : q'.hands inHands = q.hands inHands) (hbegun : q'.hands begun = q.hands begun)
    (hreturned : q'.hands returned = q.hands returned)
    (hlength : q'.workMtx = none → q'.workQueueLength = q'.workQueue.length) :
    Inv q' (calls ++ []) := by
  rw [List.append_nil]
  refine ⟨fun r => ?_, fun r => ?_, fun r => ?_, h.requestFirst, h.finishLast, hlength⟩
  · rw [hbatch, hfinish, hwork, hadded, hin]
    exact h.once r
  · rw [hbatch, hfinish, hbegun]
    exact h.onRequest r
  · rw [hbatch, hfinish, hreturned]
    exact h.onRequestReturn r

theorem finished_onRequest (calls : List Callback) (x : Nat) :
    finished (calls ++ [.onRequest x]) = finished calls := by simp [finished]

theorem finished_onRequestReturn (calls : List Callback) (x : Nat) :
    finished (calls ++ [.onRequestReturn x]) = finished calls := by simp [finished]

theorem finished_onFinish (calls : List Callback) (x : Nat) :
    finished (calls ++ [.onFinish x]) = finished calls ++ [x] := by simp [finished]

theorem count_onRequest (calls : List Callback) (x r : Nat) :
    (calls ++ [Callback.onRequest x]).count (Callback.onRequest r) =
      calls.count (Callback.onRequest r) + [x].count r := by
  simp [List.count_append, List.count_singleton]

theorem count_onRequestReturn (calls : List Callback) (x r : Nat) :
    (calls ++ [Callback.onRequestReturn x]).count (Callback.onRequestReturn r) =
      calls.count (Callback.onRequestReturn r) + [x].count r := by
  simp [List.count_append, List.count_singleton]

theorem count_other {c d : Callback} (h : c ≠ d) (calls : List Callback) :
    (calls ++ [c]).count d = calls.count d := by
  rw [List.count_append, List.count_singleton, if_neg (by simpa using h), Nat.add_zero]

theorem count_hands_pos {q : DBQueue} {i : Nat} {w : WorkerThread} {f : WorkerPc → Option Nat} {r : Nat}
    (hw : q.workerThreads[i]? = some w) (hf : f w.pc = some r) : 0 < (q.hands f).count r :=
  List.count_pos_iff.mpr (List.mem_filterMap.mpr ⟨w, List.mem_of_getElem? hw, hf⟩)

section Worker

variable {q : DBQueue} {calls : List Callback} {i : Nat} {w : WorkerThread}

/-- A request goes from the queue to the hands of a worker. -/
theorem Inv.pop {request : Option Nat} {rest : List (Option Nat)} (h : Inv q calls)
    (hw : q.workerThreads[i]? = some w) (hpc : w.pc = .get) (hqueue : q.workQueue = request :: rest) :
    Inv { q.setPc i w (.popped request) with workMtx := some (.worker i), workQueue := rest } calls := by
  have hset := fun f r => setPc_hands hw (.popped request) f r
  rw [hpc] at hset
  refine ⟨fun r => ?_, fun r => ?_, fun r => ?_, h.requestFirst, h.finishLast, fun hfree => by cases hfree⟩
  · have hin := hset inHands r
    have honce := h.once r
    rw [hqueue] at honce
    simp only [batch, hands, setPc, inHands] at hin honce ⊢
    cases request <;>
      simp only [Option.toList, List.filterMap_cons, id, List.count_cons, List.count_nil] at hin honce ⊢ <;>
      omega
  · have hbegun := hset begun r
    have hcalls := h.onRequest r
    simp only [batch, hands, setPc, begun] at hbegun hcalls ⊢
    omega
  · have hreturned := hset returned r
    have hcalls := h.onRequestReturn r
    simp only [batch, hands, setPc, returned] at hreturned hcalls ⊢
    omega

/-- A worker calls `onRequest`. -/
theorem Inv.call {x : Nat} (h : Inv q calls) (hw : q.workerThreads[i]? = some w) (hpc : w.pc = .got x) :
    Inv (q.setPc i w (.calling x)) (calls ++ [.onRequest x]) := by
  have hset := fun f r => setPc_hands hw (.calling x) f r
  rw [hpc] at hset
  refine ⟨fun r => ?_, fun r => ?_, fun r => ?_, fun r => ?_, fun r => ?_, h.length⟩
  · have hin := hset inHands r
    have honce := h.once r
    rw [finished_onRequest]
    simp only [batch, hands, setPc, inHands] at hin honce ⊢
    omega
  · have hbegun := hset begun r
    have hcalls := h.onRequest r
    rw [finished_onRequest, count_onRequest]
    simp only [batch, hands, setPc, begun, Option.toList, List.count_nil] at hbegun hcalls ⊢
    omega
  · have hreturned := hset returned r
    have hcalls := h.onRequestReturn r
    rw [finished_onRequest, count_other (fun hc => by cases hc)]
    simp only [batch, hands, setPc, returned] at hreturned hcalls ⊢
    omega
  · exact (h.requestFirst r).concat (fun hc => by cases hc)
  · exact (h.finishLast r).concat (fun hc => by cases hc)

/-- `onRequest` returns; it was called before. -/
theorem Inv.callReturn {x : Nat} (h : Inv q calls) (hw : q.workerThreads[i]? = some w) (hpc : w.pc = .calling x) :
    Inv (q.setPc i w (.called x)) (calls ++ [.onRequestReturn x]) := by
  have hcalled : 0 < calls.count (.onRequest x) := by
    have hpos := count_hands_pos (f := begun) (r := x) hw (by rw [hpc]; rfl)
    have hcalls := h.onRequest x
    omega
  have hset := fun f r => setPc_hands hw (.called x) f r
  rw [hpc] at hset
  refine ⟨fun r => ?_, fun r => ?_, fun r => ?_, fun r => ?_, fun r => ?_, h.length⟩
  · have hin := hset inHands r
    have honce := h.once r
    rw [finished_onRequestReturn]
    simp only [batch, hands, setPc, inHands] at hin honce ⊢
    omega
  · have hbegun := hset begun r
    have hcalls := h.onRequest r
    rw [finished_onRequestReturn, count_other (fun hc => by cases hc)]
    simp only [batch, hands, setPc, begun] at hbegun hcalls ⊢
    omega
  · have hreturned := hset returned r
    have hcalls := h.onRequestReturn r
    rw [finished_onRequestReturn, count_onRequestReturn]
    simp only [batch, hands, setPc, returned, Option.toList, List.count_nil] at hreturned hcalls ⊢
    omega
  · exact (h.requestFirst r).concat (fun hc => by cases hc; exact List.count_pos_iff.mp hcalled)
  · exact (h.finishLast r).concat (fun hc => by cases hc)

/-- A request goes from the hands of a worker to the finished ones. -/
theorem Inv.handIn {x : Nat} (h : Inv q calls) (hw : q.workerThreads[i]? = some w) (hpc : w.pc = .called x) :
    Inv { q.setPc i w .test with finishQueue := q.finishQueue ++ [x] } calls := by
  have hset := fun f r => setPc_hands hw .test f r
  rw [hpc] at hset
  refine ⟨fun r => ?_, fun r => ?_, fun r => ?_, h.requestFirst, h.finishLast, h.length⟩
  · have hin := hset inHands r
    have honce := h.once r
    simp only [batch, hands, setPc, inHands, Option.toList, List.count_nil, List.count_append] at hin honce ⊢
    omega
  · have hbegun := hset begun r
    have hcalls := h.onRequest r
    simp only [batch, hands, setPc, begun, Option.toList, List.count_nil, List.count_append] at hbegun hcalls ⊢
    omega
  · have hreturned := hset returned r
    have hcalls := h.onRequestReturn r
    simp only [batch, hands, setPc, returned, Option.toList, List.count_nil,
      List.count_append] at hreturned hcalls ⊢
    omega

/-- One step of a worker. -/
theorem workerStep_inv {q' : DBQueue} {cs : List Callback} (h : Inv q calls) (hw : q.workerThreads[i]? = some w)
    (hstep : q.workerStep i w = some (q', cs)) : Inv q' (calls ++ cs) := by
  unfold workerStep at hstep
  split at hstep
  · rename_i hpc
    cases hstep
    refine h.same rfl rfl rfl rfl (setPc_hands_same hw ?_) (setPc_hands_same hw ?_)
      (setPc_hands_same hw ?_) h.length <;> rw [hpc] <;> cases w.isExit <;> rfl
  · rename_i hpc
    split at hstep
    · cases hstep
    split at hstep
    · cases hstep
      refine h.same rfl rfl rfl rfl (setPc_hands_same hw ?_) (setPc_hands_same hw ?_)
        (setPc_hands_same hw ?_) h.length <;> rw [hpc] <;> rfl
    · rename_i hqueue
      cases hstep
      rw [List.append_nil]
      exact h.pop hw hpc hqueue
  · rename_i request hpc
    cases hstep
    refine h.same rfl rfl rfl rfl (setPc_hands_same hw ?_) (setPc_hands_same hw ?_)
      (setPc_hands_same hw ?_) (fun _ => rfl) <;> rw [hpc] <;> cases request <;> rfl
  · rename_i hpc
    cases hstep
    exact h.call hw hpc
  · rename_i hpc
    cases hstep
    exact h.callReturn hw hpc
  · rename_i hpc
    cases hstep
    rw [List.append_nil]
    exact h.handIn hw hpc
  · cases hstep

end Worker

/-- A running `setThread` adds and removes only workers with empty hands. -/
theorem setThreadStep_inv {q q' : DBQueue} {calls cs : List Callback} {numThread : Nat}
    (h : Inv q calls) (hstep : q.setThreadStep numThread = some (q', cs)) : Inv q' (calls ++ cs) := by
  unfold setThreadStep at hstep
  split at hstep
  · cases hstep
    have hnew : ∀ f : WorkerPc → Option Nat, f .test = none →
        ({ q with workerThreads := q.workerThreads ++ [⟨false, .test⟩] } : DBQueue).hands f = q.hands f := by
      intro f hf
      simp [hands, List.filterMap_append, hf]
    exact h.same rfl rfl rfl rfl (hnew _ rfl) (hnew _ rfl) (hnew _ rfl) h.length
  split at hstep
  · split at hstep
    · cases hstep
    rename_i w hlast
    obtain ⟨ws, hws⟩ := List.getLast?_eq_some_iff.mp hlast
    split at hstep
    · cases hstep
      have hmark : ∀ f : WorkerPc → Option Nat, ({ q with workerThreads := q.workerThreads.dropLast ++
          [{ w with isExit := true }] } : DBQueue).hands f = q.hands f := by
        intro f
        simp only [hands, hws, List.dropLast_concat, List.filterMap_append]
        rfl
      exact h.same rfl rfl rfl rfl (hmark _) (hmark _) (hmark _) h.length
    split at hstep
    · rename_i hexited
      cases hstep
      have hgone : ∀ f : WorkerPc → Option Nat, f .exited = none →
          ({ q with workerThreads := q.workerThreads.dropLast } : DBQueue).hands f = q.hands f := by
        intro f hf
        simp [hands, hws, List.filterMap_append, hexited, hf]
      exact h.same rfl rfl rfl rfl (hgone _ rfl) (hgone _ rfl) (hgone _ rfl) h.length
    · cases hstep
  · cases hstep
    exact h.same rfl rfl rfl rfl rfl rfl rfl h.length

section Owner

variable {q : DBQueue} {calls : List Callback}

/-- A request that is added goes to the end of the queue. -/
theorem Inv.push (h : Inv q calls) :
    Inv { q with workMtx := some .adder, workQueue := q.workQueue ++ [some q.added], added := q.added + 1 } calls := by
  refine ⟨fun r => ?_, h.onRequest, h.onRequestReturn, h.requestFirst, h.finishLast, fun hfree => by cases hfree⟩
  have honce := h.once r
  have hqueue : (q.workQueue ++ [some q.added]).filterMap id = q.workQueue.filterMap id ++ [q.added] := by
    simp [List.filterMap_append]
  simp only [batch, hands, hqueue, List.range_succ, List.count_append] at honce ⊢
  omega

/-- `update` takes the finished requests for its batch. -/
theorem Inv.swap (h : Inv q calls) :
    Inv { q with tmpQueues := q.finishQueue :: q.tmpQueues, finishing := false, finishQueue := [] } calls := by
  refine ⟨fun r => ?_, fun r => ?_, fun r => ?_, h.requestFirst, h.finishLast, h.length⟩
  · have honce := h.once r
    simp only [batch, hands, List.flatten_cons, List.count_append, List.count_nil] at honce ⊢
    omega
  · have hcalls := h.onRequest r
    simp only [batch, hands, List.flatten_cons, List.count_append, List.count_nil] at hcalls ⊢
    omega
  · have hcalls := h.onRequestReturn r
    simp only [batch, hands, List.flatten_cons, List.count_append, List.count_nil] at hcalls ⊢
    omega

/-- `update` calls `onFinish`; `onRequest` has returned. -/
theorem Inv.finish {x : Nat} {rest : List Nat} {outer : List (List Nat)} (h : Inv q calls)
    (hbatch : q.tmpQueues = (x :: rest) :: outer) :
    Inv { q with tmpQueues := rest :: outer, finishing := true } (calls ++ [.onFinish x]) := by
  have hreturned : 0 < calls.count (.onRequestReturn x) := by
    have hcalls := h.onRequestReturn x
    simp only [batch, hbatch, List.flatten_cons, List.cons_append, List.count_cons_self] at hcalls
    omega
  refine ⟨fun r => ?_, fun r => ?_, fun r => ?_, fun r => ?_, fun r => ?_, h.length⟩
  · have honce := h.once r
    rw [finished_onFinish]
    simp only [batch, hands, hbatch, List.flatten_cons, List.count_append, List.count_cons,
      List.count_nil] at honce ⊢
    omega
  · have hcalls := h.onRequest r
    rw [finished_onFinish, count_other (fun hc => by cases hc)]
    simp only [batch, hands, hbatch, List.flatten_cons, List.count_append, List.count_cons,
      List.count_nil] at hcalls ⊢
    omega
  · have hcalls := h.onRequestReturn r
    rw [finished_onFinish, count_other (fun hc => by cases hc)]
    simp only [batch, hands, hbatch, List.flatten_cons, List.count_append, List.count_cons,
      List.count_nil] at hcalls ⊢
    omega
  · exact (h.requestFirst r).concat (fun hc => by cases hc)
  · exact (h.finishLast r).concat (fun hc => by cases hc; exact List.count_pos_iff.mp hreturned)

end Owner

/-- **One step**, of whichever thread. -/
theorem step_inv {q q' : DBQueue} {calls cs : List Callback} (h : Inv q calls) (action : Action)
    (hstep : q.step action = some (q', cs)) : Inv q' (calls ++ cs) := by
  cases action with
  | addRequest isNull =>
    simp only [step] at hstep
    split at hstep
    · cases hstep
    split at hstep
    · cases hstep
      exact h.same rfl rfl rfl (by simp [List.filterMap_append]) rfl rfl rfl (fun hfree => by cases hfree)
    · cases hstep
      rw [List.append_nil]
      exact h.push
  | addRequestEnd =>
    simp only [step] at hstep
    split at hstep
    · cases hstep
      exact h.same rfl rfl rfl rfl rfl rfl rfl (fun _ => rfl)
    · cases hstep
  | worker i =>
    simp only [step] at hstep
    split at hstep
    · cases hstep
    · rename_i w hw
      exact workerStep_inv h hw hstep
  | update =>
    simp only [step] at hstep
    split at hstep
    · rename_i hidle
      cases hstep
      rw [List.append_nil]
      exact h.swap
    · cases hstep
  | updateNext =>
    simp only [step] at hstep
    split at hstep
    · cases hstep
    · rename_i outer hdone
      cases hstep
      exact h.same rfl (by rw [batch, batch, hdone]; rfl) rfl rfl rfl rfl rfl h.length
    · rename_i x rest outer hbatch
      cases hstep
      exact h.finish hbatch
  | setThread numThread =>
    simp only [step] at hstep
    split at hstep
    · cases hstep
      exact h.same rfl rfl rfl rfl rfl rfl rfl h.length
    · cases hstep
  | setThreadNext =>
    simp only [step] at hstep
    split at hstep
    · cases hstep
    · exact setThreadStep_inv h hstep

/-! ## One worker -/

/-- A worker on its own passes requests from place to place in their order. -/
theorem workerStep_places {q q' : DBQueue} {cs : List Callback} {w : WorkerThread} (calls : List Callback)
    (hws : q.workerThreads = [w]) (hstep : q.workerStep 0 w = some (q', cs)) :
    q'.places (calls ++ cs) = q.places calls ∧ q'.added = q.added := by
  unfold workerStep at hstep
  split at hstep
  · rename_i hpc
    cases hstep
    refine ⟨?_, rfl⟩
    cases w.isExit <;> simp [places, hands, batch, setPc, hws, hpc, inHands]
  · rename_i hpc
    split at hstep
    · cases hstep
    split at hstep
    · cases hstep
      exact ⟨by simp [places, hands, batch, setPc, hws, hpc, inHands], rfl⟩
    · rename_i request rest hqueue
      cases hstep
      refine ⟨?_, rfl⟩
      cases request <;> simp [places, hands, batch, setPc, hws, hpc, hqueue, inHands]
  · rename_i request hpc
    cases hstep
    refine ⟨?_, rfl⟩
    cases request <;> simp [places, hands, batch, setPc, hws, hpc, inHands]
  · rename_i x hpc
    cases hstep
    exact ⟨by simp [places, hands, batch, setPc, hws, hpc, inHands, finished_onRequest], rfl⟩
  · rename_i x hpc
    cases hstep
    exact ⟨by simp [places, hands, batch, setPc, hws, hpc, inHands, finished_onRequestReturn], rfl⟩
  · rename_i x hpc
    cases hstep
    exact ⟨by simp [places, hands, batch, setPc, hws, hpc, inHands], rfl⟩
  · cases hstep

theorem setThreadStep_places {q q' : DBQueue} {cs : List Callback} {numThread : Nat}
    (calls : List Callback) (hstep : q.setThreadStep numThread = some (q', cs)) :
    q'.places (calls ++ cs) = q.places calls ∧ q'.added = q.added := by
  unfold setThreadStep at hstep
  split at hstep
  · cases hstep
    exact ⟨by simp [places, hands, batch, List.filterMap_append, inHands], rfl⟩
  split at hstep
  · split at hstep
    · cases hstep
    rename_i w hlast
    obtain ⟨ws, hws⟩ := List.getLast?_eq_some_iff.mp hlast
    split at hstep
    · cases hstep
      refine ⟨?_, rfl⟩
      simp only [places, hands, batch, hws, List.dropLast_concat, List.filterMap_append, List.append_nil]
      rfl
    split at hstep
    · rename_i hexited
      cases hstep
      exact ⟨by simp [places, hands, batch, hws, List.filterMap_append, hexited, inHands], rfl⟩
    · cases hstep
  · cases hstep
    exact ⟨by rw [List.append_nil]; rfl, rfl⟩

/-- An `onFinish` calls `update` while more of its batch is to be finished, and the new batch is not empty. -/
def Overtakes (q : DBQueue) (action : Action) : Prop := action = .update ∧ q.batch ≠ [] ∧ q.finishQueue ≠ []

instance (q : DBQueue) (action : Action) : Decidable (Overtakes q action) :=
  inferInstanceAs (Decidable (action = .update ∧ q.batch ≠ [] ∧ q.finishQueue ≠ []))

/-- While there is at most one worker, nothing else overtakes. -/
theorem step_fifo {q q' : DBQueue} {calls cs : List Callback} (h : q.places calls = List.range q.added)
    (hone : q.workerThreads.length ≤ 1) (action : Action) (hnot : ¬ Overtakes q action)
    (hstep : q.step action = some (q', cs)) : q'.places (calls ++ cs) = List.range q'.added := by
  cases action with
  | addRequest isNull =>
    simp only [step] at hstep
    split at hstep
    · cases hstep
    split at hstep
    · cases hstep
      rw [← h]
      simp [places, hands, batch, List.filterMap_append]
    · cases hstep
      rw [List.range_succ, ← h]
      simp [places, hands, batch, List.filterMap_append]
  | addRequestEnd =>
    simp only [step] at hstep
    split at hstep
    · cases hstep
      rw [← h]
      simp [places, hands, batch]
    · cases hstep
  | worker i =>
    simp only [step] at hstep
    split at hstep
    · cases hstep
    · rename_i w hw
      obtain ⟨hi, -⟩ := List.getElem?_eq_some_iff.mp hw
      obtain ⟨v, hws⟩ := List.length_eq_one_iff.mp (show q.workerThreads.length = 1 by omega)
      have hi : i = 0 := by omega
      subst hi
      obtain rfl : v = w := by simpa [hws] using hw
      obtain ⟨hplaces, hadded⟩ := workerStep_places calls hws hstep
      rw [hplaces, hadded, h]
  | update =>
    simp only [step] at hstep
    split at hstep
    · cases hstep
      rw [← h]
      by_cases hbatch : q.tmpQueues.flatten = []
      · simp [places, hands, batch, hbatch]
      · have hempty : q.finishQueue = [] := by_contra fun hfinish => hnot ⟨rfl, hbatch, hfinish⟩
        simp [places, hands, batch, hempty]
    · cases hstep
  | updateNext =>
    simp only [step] at hstep
    split at hstep
    · cases hstep
    · rename_i hdone
      cases hstep
      rw [← h]
      simp [places, hands, batch, hdone]
    · rename_i x rest outer hbatch
      cases hstep
      rw [← h]
      simp [places, hands, batch, hbatch, finished_onFinish]
  | setThread numThread =>
    simp only [step] at hstep
    split at hstep
    · cases hstep
      rw [← h]
      simp [places, hands, batch]
    · cases hstep
  | setThreadNext =>
    simp only [step] at hstep
    split at hstep
    · cases hstep
    · obtain ⟨hplaces, hadded⟩ := setThreadStep_places calls hstep
      rw [hplaces, hadded, h]

/-! ## Runs -/

theorem workerStep_added {q q' : DBQueue} {cs : List Callback} {i : Nat} {w : WorkerThread}
    (hstep : q.workerStep i w = some (q', cs)) : q'.added = q.added := by
  unfold workerStep at hstep
  split at hstep
  case h_2 =>
    split at hstep
    · cases hstep
    split at hstep <;> cases hstep <;> rfl
  all_goals cases hstep <;> rfl

theorem step_added {q q' : DBQueue} {cs : List Callback} (action : Action)
    (hstep : q.step action = some (q', cs)) :
    q'.added = q.added + [action].count (.addRequest false) := by
  cases action with
  | addRequest isNull =>
    simp only [step] at hstep
    split at hstep
    · cases hstep
    cases isNull <;> cases hstep <;> rfl
  | worker i =>
    simp only [step] at hstep
    split at hstep
    · cases hstep
    · exact workerStep_added hstep
  | setThreadNext =>
    simp only [step] at hstep
    split at hstep
    · cases hstep
    · exact (setThreadStep_places [] hstep).2
  | addRequestEnd | update | updateNext | setThread =>
    simp only [step] at hstep
    split at hstep <;> cases hstep <;> rfl

theorem Inv.places_perm {q : DBQueue} {calls : List Callback} (h : Inv q calls) :
    (q.places calls).Perm (List.range q.added) := by
  rw [List.perm_iff_count]
  intro r
  rw [← h.once r]
  simp only [places, List.count_append]

theorem filterMap_count_le {f g : WorkerThread → Option Nat} (hfg : ∀ w, f w = none ∨ f w = g w)
    (r : Nat) : ∀ ws : List WorkerThread, (ws.filterMap f).count r ≤ (ws.filterMap g).count r
  | [] => Nat.le_refl _
  | w :: ws => by
    have ih := filterMap_count_le hfg r ws
    simp only [List.filterMap_cons]
    rcases hfg w with hf | hf <;> rw [hf] <;> cases g w <;> simp only [List.count_cons] <;> omega

theorem hands_begun_le (q : DBQueue) (r : Nat) : (q.hands begun).count r ≤ (q.hands inHands).count r := by
  refine filterMap_count_le (fun w => ?_) r q.workerThreads
  cases w.pc with
  | calling | called => exact Or.inr rfl
  | test | get | popped | got | exited => exact Or.inl rfl

/-- No request is in two places, so none is called twice. -/
theorem Inv.onRequest_le {q : DBQueue} {calls : List Callback} (h : Inv q calls) (r : Nat) :
    calls.count (.onRequest r) ≤ 1 := by
  have hcalls := h.onRequest r
  have honce := h.once r
  have hhands := hands_begun_le q r
  have hrange := List.nodup_iff_count.mp (List.nodup_range (n := q.added)) r
  omega

theorem count_onFinish (r : Nat) : ∀ calls : List Callback,
    calls.count (.onFinish r) = (finished calls).count r
  | [] => rfl
  | c :: calls => by
    have ih := count_onFinish r calls
    unfold finished at ih ⊢
    cases c <;> simp [List.count_cons, ih]

theorem Inv.onFinish_le {q : DBQueue} {calls : List Callback} (h : Inv q calls) (r : Nat) :
    calls.count (.onFinish r) ≤ 1 := by
  have honce := h.once r
  have hrange := List.nodup_iff_count.mp (List.nodup_range (n := q.added)) r
  rw [count_onFinish]
  omega

theorem run_inv {actions : List Action} {q : DBQueue} {out : List (List Callback)}
    (hrun : runOps step new actions = some (q, out)) :
    Inv q out.flatten ∧ q.added = actions.count (.addRequest false) := by
  refine runOps_inv (fun q done out => Inv q out.flatten ∧ q.added = done.count (.addRequest false))
    ?_ ⟨new_inv, rfl⟩ hrun
  rintro q done out action q' cs ⟨h, hadded⟩ hstep
  refine ⟨?_, ?_⟩
  · rw [List.flatten_append, List.flatten_singleton]
    exact step_inv h action hstep
  · rw [step_added action hstep, hadded, List.count_append]

/-- In a run with never more than one worker. -/
theorem run_fifo {actions : List Action} {q : DBQueue} {out : List (List Callback)}
    (hone : Along step (fun q action => q.workerThreads.length ≤ 1 ∧ ¬ Overtakes q action) new actions)
    (hrun : runOps step new actions = some (q, out)) :
    q.places out.flatten = List.range q.added := by
  have htrace := runOps_trace (fun q _ out => q.places out.flatten = List.range q.added)
    (fun q done out action q' cs h hone hstep => by
      rw [List.flatten_append, List.flatten_singleton]
      exact step_fifo h hone.1 action hone.2 hstep)
    actions new q [] [] out rfl hone hrun
  simpa using htrace

/-- **Each request is handled exactly once.**  After every run: every request added is in exactly
one place; `onRequest` and `onFinish` were called at most once on it, `onRequest` exactly once if
it got as far as `finishQueue`, and it returned before `onFinish`; `workQueueLength` is right
whenever `workMtx` is free; and if there was never more than one worker, and no `update` in an
`onFinish` overtook the outer batch, the requests finished are the first ones added, in order. -/
theorem each_request_once (actions : List Action) (q : DBQueue) (out : List (List Callback))
    (hrun : runOps step new actions = some (q, out)) :
    q.added = actions.count (.addRequest false) ∧
    (q.places out.flatten).Perm (List.range q.added) ∧
    (∀ r, out.flatten.count (.onRequest r) ≤ 1 ∧ out.flatten.count (.onFinish r) ≤ 1) ∧
    (∀ r ∈ finished out.flatten ++ q.batch ++ q.finishQueue, out.flatten.count (.onRequest r) = 1) ∧
    (∀ r, Precedes (.onRequest r) (.onRequestReturn r) out.flatten ∧
      Precedes (.onRequestReturn r) (.onFinish r) out.flatten) ∧
    (q.workMtx = none → q.workQueueLength = q.workQueue.length) ∧
    (Along step (fun q action => q.workerThreads.length ≤ 1 ∧ ¬ Overtakes q action) new actions →
      finished out.flatten <+: List.range q.added) := by
  obtain ⟨h, hadded⟩ := run_inv hrun
  refine ⟨hadded, h.places_perm, fun r => ⟨h.onRequest_le r, h.onFinish_le r⟩, fun r hr => ?_,
    fun r => ⟨h.requestFirst r, h.finishLast r⟩, h.length, fun hone => ?_⟩
  · have hcalls := h.onRequest r
    have hle := h.onRequest_le r
    have hpos := List.count_pos_iff.mpr hr
    simp only [List.count_append] at hpos
    omega
  · rw [← run_fifo hone hrun]
    simp only [places, List.append_assoc]
    exact List.prefix_append _ _

/-- Two requests, one worker: the first is finished, the second still queued. -/
theorem each_request_once_one_worker : ∃ q out,
    runOps step new
        [.setThread 1, .setThreadNext, .setThreadNext, .addRequest false, .addRequestEnd, .worker 0,
          .addRequest false, .addRequestEnd, .worker 0, .worker 0, .worker 0, .worker 0, .worker 0,
          .update, .updateNext] = some (q, out) ∧
      out.flatten = [.onRequest 0, .onRequestReturn 0, .onFinish 0] ∧
      q.workQueueLength = 1 ∧ (q.places out.flatten).Perm [0, 1] ∧ finished out.flatten <+: [0, 1] := by
  have hrun : runOps step new
      [.setThread 1, .setThreadNext, .setThreadNext, .addRequest false, .addRequestEnd, .worker 0,
        .addRequest false, .addRequestEnd, .worker 0, .worker 0, .worker 0, .worker 0, .worker 0,
        .update, .updateNext] =
      some (⟨none, [some 1], 1, [], [⟨false, .test⟩], [[]], true, none, 2⟩,
        [[], [], [], [], [], [], [], [], [], [], [.onRequest 0], [.onRequestReturn 0], [], [], [.onFinish 0]]) := by
    decide
  obtain ⟨-, hperm, -, -, -, -, horder⟩ := each_request_once _ _ _ hrun
  exact ⟨_, _, hrun, rfl, rfl, hperm, horder (by decide)⟩

/-- One worker has finished two of three requests when `update` is called.  The `onFinish` of the first one
waits until the third one is there, and calls `update` again. -/
def overtaking : List Action :=
  [.setThread 1, .setThreadNext, .setThreadNext, .addRequest false, .addRequestEnd, .addRequest false, .addRequestEnd,
    .addRequest false, .addRequestEnd] ++ .replicate 12 (.worker 0) ++ [.update,
      .updateNext] ++ .replicate 6 (.worker 0) ++
    [.update, .updateNext, .updateNext, .updateNext, .updateNext]

theorem overtaking_finished : (runOps step new overtaking).map (fun run => finished run.2.flatten) =
    some [0, 2, 1] := by
  decide +kernel

/-- The second request is finished last, although there is one worker. -/
theorem nested_update_overtakes :
    ¬ ∀ (actions : List Action) (q : DBQueue) (out : List (List Callback)),
      runOps step new actions = some (q, out) →
      Along step (fun q _ => q.workerThreads.length ≤ 1) new actions →
        finished out.flatten <+: List.range q.added := by
  intro hall
  obtain ⟨⟨q, out⟩, hrun, hfinished⟩ := Option.map_eq_some_iff.mp overtaking_finished
  have hadded : q.added = overtaking.count (.addRequest false) := (run_inv hrun).2
  have horder := hall _ q out hrun (by decide +kernel)
  rw [hfinished, hadded] at horder
  exact absurd horder (by decide +kernel)

end DBQueue

end Libws.Database
