import Libws.Database.ExactlyOnce

/-!
# What `~DBQueue` leaves undone

Model of `DBQueue::~DBQueue` of `wsDatabase/src/Database.cpp`: the main thread runs the destructor, outside of
any `update`; the workers go on as before; and an `onFinish` may add requests, and call `update` itself.

* `Phase` — what holds while the destructor is at some place;
* `Late` — an `onFinish` of the last `update` adds a request;
* `drained_iff` — all requests are done when the destructor returns, unless one was added late.
-/

set_option autoImplicit false

namespace Libws.Database

open Libws.Machine

/-- Where the destructor is. -/
inductive DestructorPc where
  /-- before `getQueueLength()` -/
  | test
  /-- before the `update()` of the loop -/
  | drain
  /-- in it -/
  | draining
  /-- before `isExit` of the worker `i` is set -/
  | mark (i : Nat)
  /-- in `join()` of the worker `i` -/
  | join (i : Nat)
  /-- before the last `update()` -/
  | finish
  /-- in it -/
  | finishing
  | returned
  deriving DecidableEq, Repr

/-- In an `update()`. -/
def DestructorPc.updating : DestructorPc → Bool
  | .draining | .finishing => true
  | _ => false

/-- In the last `update()`, or behind it. -/
def DestructorPc.last : DestructorPc → Bool
  | .finishing | .returned => true
  | _ => false

structure Destruction where
  queue : DBQueue
  pc : DestructorPc
  deriving DecidableEq, Repr

inductive Move where
  /-- the next step of the destructor -/
  | next
  /-- the next step of the worker `i` -/
  | worker (i : Nat)
  /-- an `onFinish` calls `addRequest` -/
  | addRequest (isNull : Bool)
  | addRequestEnd
  /-- an `onFinish` calls `update` -/
  | update
  deriving DecidableEq, Repr

namespace Destruction

/-- A step of the queue. -/
def act (d : Destruction) (action : Action) : Option (Destruction × List Callback) :=
  (d.queue.step action).map fun (queue, calls) => ({ d with queue := queue }, calls)

/-- In an `onFinish`. -/
def calling (d : Destruction) : Bool := d.pc.updating && d.queue.finishing

/-- `update()`, up to its loop. -/
def update (d : Destruction) (inside : DestructorPc) : Option (Destruction × List Callback) :=
  if d.queue.tmpQueues = [] then ({ d with pc := inside } : Destruction).act .update else none

/-- The innermost `update` calls the next `onFinish`, or returns; the outermost one is the destructor's. -/
def updateNext (d : Destruction) (after : DestructorPc) : Option (Destruction × List Callback) :=
  if d.queue.workMtx = some .adder then none
  else
    (d.queue.step .updateNext).map fun (queue, calls) =>
      ({ queue := queue, pc := if queue.tmpQueues = [] then after else d.pc }, calls)

/-- `~DBQueue`. -/
def next (d : Destruction) : Option (Destruction × List Callback) :=
  match d.pc with
  | .test =>
    if d.queue.workMtx.isSome then none
    else if d.queue.workQueueLength ≠ 0 then some ({ d with pc := .drain }, [])
    else some ({ d with pc := .mark 0 }, [])
  | .drain => d.update .draining
  | .draining => d.updateNext .test
  | .mark i =>
    match d.queue.workerThreads[i]? with
    | none => some ({ d with pc := .finish }, [])
    | some th =>
      some ({ queue := { d.queue with workerThreads := d.queue.workerThreads.set i { th with isExit := true } }
              pc := .join i }, [])
  | .join i =>
    match d.queue.workerThreads[i]? with
    | none => none
    | some th => if th.pc = .exited then some ({ d with pc := .mark (i + 1) }, []) else none
  | .finish => d.update .finishing
  | .finishing => d.updateNext .returned
  | .returned => none

def step (d : Destruction) : Move → Option (Destruction × List Callback)
  | .next => d.next
  | .worker i => d.act (.worker i)
  | .addRequest isNull => if d.calling then d.act (.addRequest isNull) else none
  | .addRequestEnd => if d.calling then d.act .addRequestEnd else none
  | .update => if d.calling ∧ d.queue.workMtx ≠ some .adder then d.act .update else none

/-- An `onFinish` in the last `update` adds a request. -/
def Late (d : Destruction) (move : Move) : Prop := move = .addRequest false ∧ d.pc = .finishing

instance (d : Destruction) (move : Move) : Decidable (Late d move) :=
  inferInstanceAs (Decidable (move = .addRequest false ∧ d.pc = .finishing))

/-! ## The phases -/

/-- The first `n` workers have left `DBWorkThread`. -/
def Exited (ws : List WorkerThread) (n : Nat) : Prop := ∀ i < n, ∀ th, ws[i]? = some th → th.pc = .exited

/-- What holds at a place of the destructor. -/
def Phase (d : Destruction) : Prop :=
  match d.pc with
  | .test | .drain | .draining => True
  | .mark i | .join i => d.queue.workQueue = [] ∧ Exited d.queue.workerThreads i
  | .finish => d.queue.workQueue = [] ∧ Exited d.queue.workerThreads d.queue.workerThreads.length
  | .finishing => d.queue.finishQueue = [] ∧ Exited d.queue.workerThreads d.queue.workerThreads.length
  | .returned =>
    (d.queue.finishQueue = [] ∧ d.queue.tmpQueues = []) ∧ Exited d.queue.workerThreads d.queue.workerThreads.length

/-- No request is left in the work queue when no worker will look into it again. -/
def Empty (d : Destruction) : Prop := d.pc.last = true → d.queue.workQueue.filterMap id = []

/-! ## What a step does -/

/-- A worker that has not left moves on; it finds nothing in an empty work queue. -/
theorem worker_cases {q q' : DBQueue} {i : Nat} {cs : List Callback} (hstep : q.step (.worker i) = some (q', cs)) :
    ∃ th pc, q.workerThreads[i]? = some th ∧ th.pc ≠ .exited ∧
      q'.workerThreads = q.workerThreads.set i { th with pc := pc } ∧ (q.workQueue = [] → q'.workQueue = []) := by
  simp only [DBQueue.step] at hstep
  split at hstep
  · cases hstep
  rename_i th hth
  unfold DBQueue.workerStep at hstep
  split at hstep
  case h_2 hpc =>
    split at hstep
    · cases hstep
    split at hstep
    · cases hstep
      exact ⟨th, _, hth, by simp [hpc], rfl, id⟩
    · rename_i request rest hqueue
      cases hstep
      exact ⟨th, _, hth, by simp [hpc], rfl, fun hempty => by rw [hqueue] at hempty; cases hempty⟩
  case h_7 => cases hstep
  all_goals
    rename_i hpc
    cases hstep
    exact ⟨th, _, hth, by simp [hpc], rfl, id⟩

theorem update_cases {q q' : DBQueue} {cs : List Callback} (hstep : q.step .update = some (q', cs)) :
    q' = { q with tmpQueues := q.finishQueue :: q.tmpQueues, finishing := false, finishQueue := [] } := by
  simp only [DBQueue.step] at hstep
  split at hstep <;> cases hstep
  rfl

theorem updateNext_cases {q q' : DBQueue} {cs : List Callback} (hstep : q.step .updateNext = some (q', cs)) :
    q' = { q with tmpQueues := q'.tmpQueues, finishing := q'.finishing } := by
  simp only [DBQueue.step] at hstep
  split at hstep <;> cases hstep <;> rfl

theorem addRequest_cases {q q' : DBQueue} {isNull : Bool} {cs : List Callback}
    (hstep : q.step (.addRequest isNull) = some (q', cs)) :
    q'.workerThreads = q.workerThreads ∧ q'.finishQueue = q.finishQueue ∧
      q'.workQueue.filterMap id = q.workQueue.filterMap id ++ if isNull then [] else [q.added] := by
  simp only [DBQueue.step] at hstep
  split at hstep
  · cases hstep
  · split at hstep <;> rename_i hnull <;> cases hstep
    · refine ⟨rfl, rfl, ?_⟩
      simp [hnull]
    · refine ⟨rfl, rfl, ?_⟩
      simp [hnull]

theorem addRequestEnd_cases {q q' : DBQueue} {cs : List Callback} (hstep : q.step .addRequestEnd = some (q', cs)) :
    q' = { q with workQueueLength := q'.workQueueLength, workMtx := q'.workMtx } := by
  simp only [DBQueue.step] at hstep
  split at hstep <;> cases hstep
  rfl

/-- A step of the queue, as a step of the destruction. -/
theorem act_cases {d d' : Destruction} {action : Action} {cs : List Callback}
    (hstep : d.act action = some (d', cs)) : d.queue.step action = some (d'.queue, cs) ∧ d'.pc = d.pc := by
  obtain ⟨⟨queue, calls⟩, hqueue, hresult⟩ := Option.map_eq_some_iff.mp hstep
  cases hresult
  exact ⟨hqueue, rfl⟩

/-- The destructor calls `update`. -/
theorem destructor_update_cases {d d' : Destruction} {inside : DestructorPc} {cs : List Callback}
    (hstep : d.update inside = some (d', cs)) : d.queue.step .update = some (d'.queue, cs) ∧ d'.pc = inside := by
  unfold update at hstep
  split at hstep
  · exact act_cases hstep
  · cases hstep

theorem destructor_updateNext_cases {d d' : Destruction} {after : DestructorPc} {cs : List Callback}
    (hstep : d.updateNext after = some (d', cs)) :
    d.queue.step .updateNext = some (d'.queue, cs) ∧ (d'.pc = d.pc ∨ d'.pc = after ∧ d'.queue.tmpQueues = []) := by
  unfold updateNext at hstep
  split at hstep
  · cases hstep
  · obtain ⟨⟨queue, calls⟩, hqueue, hresult⟩ := Option.map_eq_some_iff.mp hstep
    cases hresult
    refine ⟨hqueue, ?_⟩
    by_cases hdone : queue.tmpQueues = []
    · exact Or.inr ⟨if_pos hdone, hdone⟩
    · exact Or.inl (if_neg hdone)

/-- A call of the queue from an `onFinish`. -/
theorem calling_cases {d d' : Destruction} {action : Action} {cs : List Callback}
    (hstep : (if d.calling then d.act action else none) = some (d', cs)) :
    d.pc.updating = true ∧ d.queue.step action = some (d'.queue, cs) ∧ d'.pc = d.pc := by
  split at hstep
  · rename_i hcalling
    exact ⟨(Bool.and_eq_true_iff.mp hcalling).1, act_cases hstep⟩
  · cases hstep

theorem calling_update_cases {d d' : Destruction} {cs : List Callback} (hstep : d.step .update = some (d', cs)) :
    d.pc.updating = true ∧ d.queue.step .update = some (d'.queue, cs) ∧ d'.pc = d.pc := by
  simp only [step] at hstep
  split at hstep
  · rename_i hcalling
    exact ⟨(Bool.and_eq_true_iff.mp hcalling.1).1, act_cases hstep⟩
  · cases hstep

/-- A worker behind those that have left. -/
theorem Exited.set {ws : List WorkerThread} {n i : Nat} (h : Exited ws n) (hle : n ≤ i) (th : WorkerThread) :
    Exited (ws.set i th) n := by
  intro j hj other hother
  rw [List.getElem?_set_ne (by omega)] at hother
  exact h j hj other hother

/-- One more has left. -/
theorem Exited.succ {ws : List WorkerThread} {n : Nat} {th : WorkerThread} (h : Exited ws n)
    (hth : ws[n]? = some th) (hexited : th.pc = .exited) : Exited ws (n + 1) := by
  intro j hj other hother
  rcases Nat.lt_succ_iff_lt_or_eq.mp hj with hlt | rfl
  · exact h j hlt other hother
  · cases hth.symm.trans hother
    exact hexited

/-- The workers that have left have no step. -/
theorem Exited.worker {ws : List WorkerThread} {n i : Nat} {th : WorkerThread} (h : Exited ws n)
    (hth : ws[i]? = some th) (hpc : th.pc ≠ .exited) (th' : WorkerThread) : n ≤ i ∧ Exited (ws.set i th') n := by
  have hle : n ≤ i := Nat.le_of_not_lt fun hlt => hpc (h i hlt th hth)
  exact ⟨hle, h.set hle th'⟩

theorem Exited.all {ws : List WorkerThread} {i : Nat} {th : WorkerThread} (h : Exited ws ws.length)
    (hth : ws[i]? = some th) : th.pc = .exited :=
  h i (List.getElem?_eq_some_iff.mp hth).1 th hth

/-! ## The phases are kept -/

/-- A worker does nothing to a phase, and nothing at all once it has left. -/
theorem Phase.worker {d d' : Destruction} {i : Nat} {cs : List Callback} (h : Phase d)
    (hstep : d.act (.worker i) = some (d', cs)) : Phase d' := by
  obtain ⟨hqueue, hpc⟩ := act_cases hstep
  obtain ⟨th, pc, hth, hne, hworkers, hempty⟩ := worker_cases hqueue
  unfold Phase at h ⊢
  rw [hpc]
  split at h
  · trivial
  · trivial
  · trivial
  · exact ⟨hempty h.1, hworkers ▸ (h.2.worker hth hne _).2⟩
  · exact ⟨hempty h.1, hworkers ▸ (h.2.worker hth hne _).2⟩
  · exact absurd (h.2.all hth) hne
  · exact absurd (h.2.all hth) hne
  · exact absurd (h.2.all hth) hne

/-- A call by an `onFinish`. -/
theorem Phase.calling {d d' : Destruction} (h : Phase d) (hupdating : d.pc.updating = true) (hpc : d'.pc = d.pc)
    (hworkers : d'.queue.workerThreads = d.queue.workerThreads)
    (hfinish : d.queue.finishQueue = [] → d'.queue.finishQueue = []) : Phase d' := by
  unfold Phase at h ⊢
  rw [hpc, hworkers]
  cases hd : d.pc <;> rw [hd] at h hupdating
  case draining => trivial
  case finishing => exact ⟨hfinish h.1, h.2⟩
  all_goals cases hupdating

/-- **The destructor**: no phase is entered but with what it promises. -/
theorem Phase.next {d d' : Destruction} {calls cs : List Callback} (h : Phase d) (hinv : DBQueue.Inv d.queue calls)
    (hstep : d.next = some (d', cs)) : Phase d' := by
  unfold Destruction.next at hstep
  unfold Phase at h
  split at hstep <;> rename_i hpc <;> rw [hpc] at h
  · -- `test`: the queue is empty where its length is 0
    split at hstep
    · cases hstep
    rename_i hmtx
    split at hstep <;> cases hstep
    · trivial
    · rename_i hlength
      have hnone : d.queue.workMtx = none := by simpa using hmtx
      have hempty : d.queue.workQueue.length = 0 := by
        rw [← hinv.length hnone]
        simpa using hlength
      exact ⟨List.length_eq_zero_iff.mp hempty, fun i hi => absurd hi (Nat.not_lt_zero i)⟩
  · obtain ⟨-, hpc'⟩ := destructor_update_cases hstep
    unfold Phase
    rw [hpc']
    trivial
  · obtain ⟨-, hpc' | ⟨hpc', -⟩⟩ := destructor_updateNext_cases hstep
    · unfold Phase
      rw [hpc', hpc]
      trivial
    · unfold Phase
      rw [hpc']
      trivial
  · split at hstep <;> rename_i hth <;> cases hstep
    · have hall : Exited d.queue.workerThreads d.queue.workerThreads.length := fun j hj =>
        h.2 j (Nat.lt_of_lt_of_le hj (List.getElem?_eq_none_iff.mp hth))
      exact ⟨h.1, hall⟩
    · exact ⟨h.1, h.2.set (Nat.le_refl _) _⟩
  · split at hstep
    · cases hstep
    rename_i i th hth
    split at hstep <;> cases hstep
    rename_i hexited
    exact ⟨h.1, h.2.succ hth hexited⟩
  · obtain ⟨hqueue, hpc'⟩ := destructor_update_cases hstep
    have hupdate := update_cases hqueue
    unfold Phase
    rw [hpc', hupdate]
    exact ⟨rfl, h.2⟩
  · obtain ⟨hqueue, hpc' | ⟨hpc', htmp⟩⟩ := destructor_updateNext_cases hstep
    · unfold Phase
      rw [hpc', hpc, updateNext_cases hqueue]
      exact h
    · unfold Phase
      rw [hpc', htmp, updateNext_cases hqueue]
      exact ⟨⟨h.1, rfl⟩, h.2⟩
  · cases hstep

theorem step_phase {d d' : Destruction} {calls cs : List Callback} (h : Phase d) (hinv : DBQueue.Inv d.queue calls)
    (move : Move) (hstep : d.step move = some (d', cs)) : Phase d' := by
  cases move with
  | next => exact h.next hinv hstep
  | worker i => exact h.worker hstep
  | addRequest isNull =>
    obtain ⟨hcalling, hqueue, hpc⟩ := calling_cases hstep
    obtain ⟨hworkers, hfinish, -⟩ := addRequest_cases hqueue
    exact h.calling hcalling hpc hworkers hfinish.trans
  | addRequestEnd =>
    obtain ⟨hcalling, hqueue, hpc⟩ := calling_cases hstep
    have hsame := addRequestEnd_cases hqueue
    exact h.calling hcalling hpc (by rw [hsame]) fun hempty => by rw [hsame, hempty]
  | update =>
    obtain ⟨hcalling, hqueue, hpc⟩ := calling_update_cases hstep
    have hsame := update_cases hqueue
    exact h.calling hcalling hpc (by rw [hsame]) fun _ => by rw [hsame]

/-- The requests stay accounted for. -/
theorem step_accounts {d d' : Destruction} {calls cs : List Callback}
    (hinv : DBQueue.Inv d.queue calls) (move : Move)
    (hstep : d.step move = some (d', cs)) : DBQueue.Inv d'.queue (calls ++ cs) := by
  cases move with
  | next =>
    simp only [Destruction.step, Destruction.next] at hstep
    split at hstep
    · split at hstep
      · cases hstep
      split at hstep <;> cases hstep <;> rwa [List.append_nil]
    · exact DBQueue.step_inv hinv _ (destructor_update_cases hstep).1
    · exact DBQueue.step_inv hinv _ (destructor_updateNext_cases hstep).1
    · split at hstep
      · cases hstep
        rwa [List.append_nil]
      · rename_i i _ th hth
        cases hstep
        have hhands := fun f : WorkerPc → Option Nat =>
          DBQueue.filterMap_set_same (f ·.pc) th { th with isExit := true } rfl _ _ hth
        exact hinv.same rfl rfl rfl rfl (hhands _) (hhands _) (hhands _) hinv.length
    · split at hstep
      · cases hstep
      split at hstep <;> cases hstep
      rwa [List.append_nil]
    · exact DBQueue.step_inv hinv _ (destructor_update_cases hstep).1
    · exact DBQueue.step_inv hinv _ (destructor_updateNext_cases hstep).1
    · cases hstep
  | worker i => exact DBQueue.step_inv hinv _ (act_cases hstep).1
  | addRequest isNull => exact DBQueue.step_inv hinv _ (calling_cases hstep).2.1
  | addRequestEnd => exact DBQueue.step_inv hinv _ (calling_cases hstep).2.1
  | update => exact DBQueue.step_inv hinv _ (calling_update_cases hstep).2.1

/-! ## Late requests -/

/-- In the last `update` every worker has left. -/
theorem Phase.exited {d : Destruction} (h : Phase d) (hlast : d.pc.last = true) :
    Exited d.queue.workerThreads d.queue.workerThreads.length := by
  unfold Phase at h
  cases hpc : d.pc <;> rw [hpc] at h hlast
  case finishing => exact h.2
  case returned => exact h.2
  all_goals cases hlast

/-- An `update` that is running at the end is the last one. -/
theorem finishing_of_updating {pc : DestructorPc} (hupdating : pc.updating = true) (hlast : pc.last = true) :
    pc = .finishing := by
  cases pc
  case finishing => rfl
  case returned => cases hupdating
  all_goals cases hlast

/-- The destructor leaves the work queue, and comes to its last `update` with an empty one only. -/
theorem next_workQueue {d d' : Destruction} {cs : List Callback} (h : Phase d) (hstep : d.next = some (d', cs)) :
    (d.pc.last = true → d'.pc.last = true ∧ d'.queue.workQueue = d.queue.workQueue) ∧
    (d.pc.last = false → d'.pc.last = true → d'.queue.workQueue = []) := by
  unfold Phase at h
  unfold Destruction.next at hstep
  split at hstep <;> rename_i hpc <;> rw [hpc] at h ⊢
  · split at hstep
    · cases hstep
    split at hstep <;> cases hstep <;> exact ⟨nofun, nofun⟩
  · rw [(destructor_update_cases hstep).2]
    exact ⟨nofun, nofun⟩
  · obtain ⟨-, hpc' | ⟨hpc', -⟩⟩ := destructor_updateNext_cases hstep
    · rw [hpc', hpc]
      exact ⟨nofun, nofun⟩
    · rw [hpc']
      exact ⟨nofun, nofun⟩
  · split at hstep <;> cases hstep <;> exact ⟨nofun, nofun⟩
  · split at hstep
    · cases hstep
    split at hstep <;> cases hstep
    exact ⟨nofun, nofun⟩
  · obtain ⟨hqueue, -⟩ := destructor_update_cases hstep
    rw [update_cases hqueue]
    exact ⟨nofun, fun _ _ => h.1⟩
  · obtain ⟨hqueue, hpc'⟩ := destructor_updateNext_cases hstep
    rw [updateNext_cases hqueue]
    refine ⟨fun _ => ⟨?_, rfl⟩, nofun⟩
    rcases hpc' with hpc' | ⟨hpc', -⟩
    · rw [hpc', hpc]
      rfl
    · rw [hpc']
      rfl
  · cases hstep

/-- **The work queue at the end**: it is empty when the last `update` begins, and what is added from then on
stays there. -/
theorem step_workQueue {d d' : Destruction} {cs : List Callback} (h : Phase d) (move : Move)
    (hstep : d.step move = some (d', cs)) :
    (d.pc.last = true → d'.pc.last = true ∧
      d'.queue.workQueue.filterMap id = d.queue.workQueue.filterMap id ++
        if Late d move then [d.queue.added] else []) ∧
    (d.pc.last = false → d'.pc.last = true → d'.queue.workQueue = []) := by
  -- only the destructor itself comes to the last `update`
  have hsame : d'.pc = d.pc → d.pc.last = false → d'.pc.last = true → d'.queue.workQueue = [] := by
    intro hpc hnot hlast
    rw [hpc, hnot] at hlast
    cases hlast
  cases move with
  | next =>
    have hlate : ¬ Late d .next := fun hlate => by cases hlate.1
    obtain ⟨hkeeps, hempty⟩ := next_workQueue h hstep
    rw [if_neg hlate, List.append_nil]
    exact ⟨fun hlast => ⟨(hkeeps hlast).1, congrArg (List.filterMap id) (hkeeps hlast).2⟩, hempty⟩
  | worker i =>
    obtain ⟨hqueue, hpc⟩ := act_cases hstep
    obtain ⟨th, pc, hth, hne, hworkers, -⟩ := worker_cases hqueue
    exact ⟨fun hlast => absurd ((h.exited hlast).all hth) hne, hsame hpc⟩
  | addRequest isNull =>
    obtain ⟨hcalling, hqueue, hpc⟩ := calling_cases hstep
    obtain ⟨-, -, hwork⟩ := addRequest_cases hqueue
    refine ⟨fun hlast => ⟨by rw [hpc]; exact hlast, ?_⟩, hsame hpc⟩
    rw [hwork]
    cases isNull <;> simp [Late, finishing_of_updating hcalling hlast]
  | addRequestEnd =>
    have hlate : ¬ Late d .addRequestEnd := fun hlate => by cases hlate.1
    obtain ⟨-, hqueue, hpc⟩ := calling_cases hstep
    rw [if_neg hlate, List.append_nil]
    refine ⟨fun hlast => ⟨by rw [hpc]; exact hlast, ?_⟩, hsame hpc⟩
    rw [addRequestEnd_cases hqueue]
  | update =>
    have hlate : ¬ Late d .update := fun hlate => by cases hlate.1
    obtain ⟨-, hqueue, hpc⟩ := calling_update_cases hstep
    rw [if_neg hlate, List.append_nil]
    refine ⟨fun hlast => ⟨by rw [hpc]; exact hlast, ?_⟩, hsame hpc⟩
    rw [update_cases hqueue]

/-! ## Whole destructions -/

/-- When the destructor has returned, exactly what is left in the work queue was not done. -/
theorem done_iff {d : Destruction} {calls : List Callback} (h : DBQueue.Inv d.queue calls) (hphase : Phase d)
    (hreturned : d.pc = .returned) :
    (∀ r < d.queue.added, .onRequest r ∈ calls ∧ .onFinish r ∈ calls) ↔ d.queue.workQueue.filterMap id = [] := by
  unfold Phase at hphase
  rw [hreturned] at hphase
  obtain ⟨⟨hfinish, htmp⟩, hall⟩ := hphase
  have hbatch : d.queue.batch = [] := by rw [DBQueue.batch, htmp]; rfl
  have hhands : ∀ f : WorkerPc → Option Nat, f .exited = none → d.queue.hands f = [] := fun f hf => by
    refine List.filterMap_eq_nil_iff.mpr fun th hth => ?_
    obtain ⟨i, hi⟩ := List.mem_iff_getElem?.mp hth
    rw [hall.all hi, hf]
  have honce := h.once
  have hrequest := h.onRequest
  simp only [hbatch, hfinish, hhands DBQueue.inHands rfl, hhands DBQueue.begun rfl, List.count_nil, Nat.add_zero]
    at honce hrequest
  constructor
  · intro hdone
    refine List.eq_nil_iff_forall_not_mem.mpr fun r hr => ?_
    have hwork := List.count_pos_iff.mpr hr
    have hrange := List.nodup_iff_count.mp (List.nodup_range (n := d.queue.added)) r
    have hr := honce r
    have hlt : r < d.queue.added := List.mem_range.mp (List.count_pos_iff.mp (by omega))
    have hfinished := List.count_pos_iff.mpr (hdone r hlt).2
    rw [DBQueue.count_onFinish] at hfinished
    omega
  · intro hempty r hr
    have hcount := honce r
    rw [hempty, List.count_nil, Nat.add_zero] at hcount
    have hpos := List.count_pos_iff.mpr (List.mem_range.mpr hr)
    constructor
    · refine List.count_pos_iff.mp ?_
      rw [hrequest, hcount]
      exact hpos
    · refine List.count_pos_iff.mp ?_
      rw [DBQueue.count_onFinish, hcount]
      exact hpos

/-- What holds of every state, for the callbacks so far. -/
def Sound (d : Destruction) (calls : List Callback) : Prop := DBQueue.Inv d.queue calls ∧ Phase d

theorem step_sound {d d' : Destruction} {calls cs : List Callback} (h : Sound d calls) (move : Move)
    (hstep : d.step move = some (d', cs)) : Sound d' (calls ++ cs) :=
  ⟨step_accounts h.1 move hstep, step_phase h.2 h.1 move hstep⟩

/-- What is added late stays. -/
theorem step_empty {d d' : Destruction} {cs : List Callback} (h : Phase d) {move : Move}
    (hstep : d.step move = some (d', cs)) : Empty d' ↔ Empty d ∧ ¬ Late d move := by
  obtain ⟨hend, hbegin⟩ := step_workQueue h move hstep
  unfold Empty
  cases hwas : d.pc.last with
  | true =>
    obtain ⟨hlast, hwork⟩ := hend hwas
    simp only [hlast, hwork, forall_const, List.append_eq_nil_iff]
    by_cases hlate : Late d move <;> simp [hlate]
  | false =>
    have hlate : ¬ Late d move := fun hlate => by
      rw [hlate.2] at hwas
      cases hwas
    simp only [Bool.false_eq_true, false_implies, true_and, hlate, not_false_eq_true, iff_true]
    intro hlast
    rw [hbegin hwas hlast, List.filterMap_nil]

theorem run_sound {moves : List Move} {d d' : Destruction} {out : List (List Callback)} {calls : List Callback}
    (h : Sound d calls) (hrun : runOps step d moves = some (d', out)) : Sound d' (calls ++ out.flatten) := by
  refine runOps_inv (fun d _ out => Sound d (calls ++ out.flatten)) (fun d _ out move d' cs h hstep => ?_)
    (by simpa using h) hrun
  rw [List.flatten_append, List.flatten_singleton, ← List.append_assoc]
  exact step_sound h move hstep

/-- **`~DBQueue` drains the queue.**  From every state that a queue can be in, when the destructor has returned,
`onRequest` and `onFinish` were called for every request added if and only if no `onFinish` of the last `update`
added one. -/
theorem drained_iff (actions : List Action) (q : DBQueue) (earlier : List (List Callback)) (moves : List Move)
    (d : Destruction) (out : List (List Callback)) (hrun : runOps DBQueue.step .new actions = some (q, earlier))
    (hdestroy : runOps step ⟨q, .test⟩ moves = some (d, out)) (hreturned : d.pc = .returned) :
    (∀ r < d.queue.added, .onRequest r ∈ (earlier ++ out).flatten ∧ .onFinish r ∈ (earlier ++ out).flatten) ↔
      Along step (fun d move => ¬ Late d move) ⟨q, .test⟩ moves := by
  have hstart : Sound ⟨q, .test⟩ earlier.flatten := ⟨(DBQueue.run_inv hrun).1, trivial⟩
  obtain ⟨hinv, hphase⟩ := run_sound hstart hdestroy
  have hempty : Empty d ↔ Empty ⟨q, .test⟩ ∧ Along step (fun d move => ¬ Late d move) ⟨q, .test⟩ moves :=
    last_iff_along (fun d => ∃ calls, Sound d calls)
      (fun _ move _ _ ⟨_, hsound⟩ hstep => ⟨_, step_sound hsound move hstep⟩)
      (fun _ _ _ _ ⟨_, hsound⟩ hstep => step_empty hsound.2 hstep) ⟨_, hstart⟩ hdestroy
  have hlast : Empty d ↔ d.queue.workQueue.filterMap id = [] := by
    unfold Empty
    rw [hreturned]
    exact ⟨fun h => h rfl, fun h _ => h⟩
  rw [List.flatten_append, done_iff hinv hphase hreturned, ← hlast, hempty]
  exact and_iff_right fun hlast => by cases hlast

/-- One worker and one request, whose `onFinish` adds nothing. -/
theorem drained_iff_one : ∃ d out,
    runOps step ⟨⟨none, [some 0], 1, [], [⟨false, .test⟩], [], false, none, 1⟩, .test⟩
        [.next, .next, .next, .worker 0, .worker 0, .worker 0, .worker 0, .worker 0, .worker 0, .next, .next, .worker 0,
          .next, .next, .next, .next, .next] = some (d, out) ∧
      d.pc = .returned ∧ ∀ r < d.queue.added, .onRequest r ∈ out.flatten ∧ .onFinish r ∈ out.flatten := by
  have hrun : runOps DBQueue.step .new [.setThread 1, .setThreadNext, .setThreadNext, .addRequest false,
    .addRequestEnd] =
      some (⟨none, [some 0], 1, [], [⟨false, .test⟩], [], false, none, 1⟩, [[], [], [], [], []]) := by decide
  have hdestroy : runOps step ⟨⟨none, [some 0], 1, [], [⟨false, .test⟩], [], false, none, 1⟩, .test⟩
      [.next, .next, .next, .worker 0, .worker 0, .worker 0, .worker 0, .worker 0, .worker 0, .next, .next, .worker 0,
        .next, .next, .next, .next, .next] =
      some (⟨⟨none, [], 0, [], [⟨true, .exited⟩], [], false, none, 1⟩, .returned⟩,
        [[], [], [], [], [], [], [.onRequest 0], [.onRequestReturn 0], [], [], [], [], [], [], [],
          [.onFinish 0], []]) := by
    decide
  exact ⟨_, _, hdestroy, rfl, (drained_iff _ _ _ _ _ _ hrun hdestroy rfl).mpr (by decide)⟩

/-- The last `onFinish` adds a request that nobody takes up. -/
theorem last_request_lost :
    ¬ ∀ (actions : List Action) (q : DBQueue) (earlier : List (List Callback)) (moves : List Move) (d : Destruction)
      (out : List (List Callback)), runOps DBQueue.step .new actions = some (q, earlier) →
        0 < q.workerThreads.length →
      runOps step ⟨q, .test⟩ moves = some (d, out) → d.pc = .returned →
      ∀ r < d.queue.added, .onRequest r ∈ (earlier ++ out).flatten ∧ .onFinish r ∈ (earlier ++ out).flatten := by
  intro hall
  have hrun : runOps DBQueue.step .new [.setThread 1, .setThreadNext, .setThreadNext, .addRequest false,
    .addRequestEnd] =
      some (⟨none, [some 0], 1, [], [⟨false, .test⟩], [], false, none, 1⟩, [[], [], [], [], []]) := by decide
  have hdestroy : runOps step ⟨⟨none, [some 0], 1, [], [⟨false, .test⟩], [], false, none, 1⟩, .test⟩
      [.next, .next, .next, .worker 0, .worker 0, .worker 0, .worker 0, .worker 0, .worker 0, .next, .next, .worker 0,
        .next, .next, .next, .next, .addRequest false, .addRequestEnd, .next] =
      some (⟨⟨none, [some 1], 1, [], [⟨true, .exited⟩], [], false, none, 2⟩, .returned⟩,
        [[], [], [], [], [], [], [.onRequest 0], [.onRequestReturn 0], [], [], [], [], [], [], [], [.onFinish 0], [], [],
          []]) := by
    decide
  exact absurd (hall _ _ _ _ _ _ hrun (by decide) hdestroy rfl 1 (by decide)).1 (by decide)

end Destruction

end Libws.Database
