import Libws.Core.Event
import Libws.Core.Signal

/-!
# Callbacks that dispatch, register and remove

Runs of the event dispatcher in which the callbacks do anything: they dispatch, on top of the
dispatches that run, and change the listeners that are being called.

* `once_called_once` — a `once` listener is called once, unless a dispatch begins between the copy it is
  called from and its erasure, or it is not found where it is to be erased;
* `removed_called_by_running` — a removed listener, also of a signal, is called by no dispatch that
  begins afterwards.
-/

set_option autoImplicit false

namespace Libws.Core.EventDispatcher

open Libws.Machine Libws.OrderedSet Libws.Snapshot

/-- A copy of the listener `callback` of the type. -/
def isCopy (type : Int) (callback : Nat) (copy : Int × CallbackType) : Bool :=
  decide (copy.1 = type ∧ copy.2.callback = callback)

/-- The operation registers the callback for the type. -/
def Op.Registers (type : Int) (callback : Nat) : Op → Prop
  | .once type' callback' _ => type' = type ∧ callback' = callback
  | .addEventListener type' callback' _ => type' = type ∧ callback' = callback
  | .removeEventListener _ _ => False

/-- The callback is registered for the type. -/
def Has (type : Int) (callback : Nat) (dispatcher : EventDispatcher) : Prop :=
  ∃ cb ∈ dispatcher.set type, cb.callback = callback

variable {shape : Nat → Shape} {dispatcher : EventDispatcher} {type : Int} {callback : Nat}

/-- A listener was there before, or was registered. -/
theorem mem_of_mem_register {type' : Int} {callback' : Nat} {priority : Int} {once : Bool} {cb : CallbackType}
    (h : cb ∈ (dispatcher.register shape type' callback' priority once).set type) :
    cb ∈ dispatcher.set type ∨ type' = type ∧ cb = ⟨callback', priority, once⟩ := by
  by_cases htype : type = type'
  · subst htype
    rcases set_register_self dispatcher type callback' priority once with
      ⟨front, old, back, hset, -, -, hset'⟩ | ⟨-, hset'⟩
    · rw [hset'] at h
      rw [hset]
      rcases List.mem_append.mp h with hfront | hback
      · exact Or.inl (List.mem_append_left _ hfront)
      · rcases List.mem_cons.mp hback with rfl | hback
        · exact Or.inr ⟨rfl, rfl⟩
        · exact Or.inl (List.mem_append_right _ (List.mem_cons_of_mem old hback))
    · rw [hset'] at h
      rcases insert_perm CallbackType.lt (shape dispatcher.searches) ⟨callback', priority, once⟩ (dispatcher.set type) with
        hsame | hperm
      · rw [hsame] at h
        exact Or.inl h
      · rcases List.mem_cons.mp (hperm.mem_iff.mp h) with rfl | hold
        · exact Or.inr ⟨rfl, rfl⟩
        · exact Or.inl hold
  · rw [set_register_of_ne dispatcher htype] at h
    exact Or.inl h

/-- What does not register the callback leaves no listener of it that was not there. -/
theorem mem_of_mem_apply {o : Op} (hnot : ¬ o.Registers type callback) {cb : CallbackType}
    (h : cb ∈ (dispatcher.apply shape o).set type) (hcb : cb.callback = callback) : cb ∈ dispatcher.set type := by
  cases o with
  | once type' callback' priority =>
    rcases mem_of_mem_register h with hold | ⟨htype, rfl⟩
    · exact hold
    · exact absurd ⟨htype, hcb⟩ hnot
  | addEventListener type' callback' priority =>
    rcases mem_of_mem_register h with hold | ⟨htype, rfl⟩
    · exact hold
    · exact absurd ⟨htype, hcb⟩ hnot
  | removeEventListener type' callback' =>
    by_cases htype : type = type'
    · subst htype
      have hmem : cb ∈ (dispatcher.removeEventListener type callback').set type := h
      rw [set_removeEventListener_self] at hmem
      exact List.mem_of_mem_eraseP hmem
    · have hmem : cb ∈ (dispatcher.removeEventListener type' callback').set type := h
      rw [set_removeEventListener_of_ne dispatcher htype] at hmem
      exact hmem

theorem step_unique {s s' : State EventDispatcher (Int × CallbackType)} {a : Move Op Int}
    {r : Option (Call (Int × CallbackType))} (h : s.registry.Unique)
    (hstep : step (machine shape) s a = some (s', r)) :
    s'.registry.Unique := by
  rcases step_cases hstep with ⟨o, rfl, rfl, rfl⟩ | ⟨d, items, rfl, hitems, hnext⟩ | ⟨frame, stack, rfl, hstack, hnext⟩
  · exact h.apply o
  · rw [(proceed_registry hnext).1]
    exact h
  · rw [(proceed_registry hnext).1]
    exact h.afterCall frame.running.1 frame.running.2

/-- In every state that is reached, a callback is registered once at most. -/
theorem unique_of_run {actions : List (Move Op Int)} {s : State EventDispatcher (Int × CallbackType)}
    {out : List (Option (Call (Int × CallbackType)))}
    (hrun : runOps (step (machine shape)) (.init new) actions = some (s, out)) : s.registry.Unique :=
  runOps_inv (fun s _ _ => s.registry.Unique) (fun _ _ _ _ _ _ h hstep => step_unique h hstep) unique_new hrun

/-! ## Removed listeners -/

/-- What is not registered is not copied. -/
theorem not_mem_snapshot (h : ¬ Has type callback dispatcher) {type' : Int} {items : List (Int × CallbackType)}
    (hitems : (machine shape).snapshot dispatcher type' = some items) :
    ∀ item ∈ items, isCopy type callback item = false := by
  cases hitems
  intro item hitem
  obtain ⟨cb, hcb, rfl⟩ := List.mem_map.mp hitem
  apply decide_eq_false
  rintro ⟨rfl, hcallback⟩
  exact h ⟨cb, hcb, hcallback⟩

/-- **A removed listener** is called by no dispatch that begins before it is registered again: only
those that ran when it was removed call it, if it was still to come in their copies. -/
theorem calls_after_remove {before actions : List (Move Op Int)} {s s' : State EventDispatcher (Int × CallbackType)}
    {out₀ out : List (Option (Call (Int × CallbackType)))} (type : Int) (callback : Nat)
    (hbefore : runOps (step (machine shape)) (.init new) before = some (s, out₀))
    (hagain : ∀ o, .op o ∈ actions → ¬ o.Registers type callback)
    (hrun : runOps (step (machine shape)) (s.afterOp (machine shape) (.removeEventListener type callback)) actions =
      some (s', out)) :
    CalledByRunning (isCopy type callback) (s.afterOp (machine shape)
      (.removeEventListener type callback)) s' out := by
  have hgone : ¬ Has type callback (s.afterOp (machine shape) (.removeEventListener type callback)).registry := by
    rintro ⟨cb, hcb, heq⟩
    exact (unique_of_run hbefore).ne_of_removed type callback cb hcb heq
  have hbegun : ∀ frame ∈ s.stack, frame.begun < s.clock + 1 :=
    fun frame hframe => Nat.lt_succ_of_lt (begun_lt_clock hbefore frame hframe)
  have hquiet := calls_of_quiet (D := machine shape) (I := fun dispatcher => ¬ Has type callback dispatcher)
    (fun _ _ h hnot ⟨cb, hcb, heq⟩ => h ⟨cb, mem_of_mem_apply hnot hcb heq, heq⟩)
    (fun dispatcher copy h ⟨cb, hcb, heq⟩ =>
      h ⟨cb, (set_afterCall_sublist dispatcher copy.1 type copy.2).subset hcb, heq⟩)
    (fun _ _ _ h hitems => not_mem_snapshot h hitems) hagain hgone hbegun hrun
  exact hquiet.calledByRunning

/-- **Removed listeners**, of a dispatcher and of a signal: no dispatch that begins before they are
registered again calls them; those that ran already call them if they were still to come. -/
theorem removed_called_by_running :
    (∀ (shape : Nat → Shape) (before actions : List (Move Op Int)) (type : Int) (callback : Nat)
      (s s' : State EventDispatcher (Int × CallbackType)) (out₀ out : List (Option (Call (Int × CallbackType)))),
      runOps (step (machine shape)) (.init new) before = some (s, out₀) →
      (∀ o, .op o ∈ actions → ¬ o.Registers type callback) →
      runOps (step (machine shape)) (s.afterOp (machine shape) (.removeEventListener type callback)) actions =
        some (s', out) →
      CalledByRunning (isCopy type callback) (s.afterOp (machine shape)
        (.removeEventListener type callback)) s' out) ∧
    ∀ (before actions : List (Move Signal.Op (List Nat))) (callback : Nat) (s s' : State Signal Nat)
      (out₀ out : List (Option (Call Nat))),
      runOps (step Signal.machine) (.init []) before = some (s, out₀) →
      (∀ o, .op o ∈ actions → o ≠ .add callback) →
      runOps (step Signal.machine) (s.afterOp Signal.machine (.remove callback)) actions = some (s', out) →
      CalledByRunning (fun item => item = callback) (s.afterOp Signal.machine (.remove callback)) s' out := by
  constructor
  · intro shape before actions type callback s s' out₀ out hbefore hagain hrun
    exact calls_after_remove type callback hbefore hagain hrun
  · intro before actions callback s s' out₀ out hbefore hadd hrun
    exact Signal.calls_after_remove callback hbefore hadd hrun

/-- The first callback removes the second one, which is still to come, and dispatches on top. -/
theorem removed_called_by_running_next :
    (∃ s s' out₀ out, runOps (step (machine fun _ _ _ => 0)) (.init new)
        [.op (.addEventListener 0 1 2), .op (.addEventListener 0 2 1), .dispatch 0] = some (s, out₀) ∧
      runOps (step (machine fun _ _ _ => 0)) (s.afterOp (machine fun _ _ _ => 0) (.removeEventListener 0 2))
        [.dispatch 0, .returned, .returned] = some (s', out) ∧
      CalledByRunning (isCopy 0 2) (s.afterOp (machine fun _ _ _ => 0) (.removeEventListener 0 2)) s' out) ∧
    ∃ s s' out₀ out, runOps (step Signal.machine) (.init []) [.op (.add 1), .op (.add 2), .dispatch [1, 2]] =
        some (s, out₀) ∧
      runOps (step Signal.machine) (s.afterOp Signal.machine (.remove 2)) [.dispatch [1], .returned, .returned] =
        some (s', out) ∧
      CalledByRunning (fun item => item = 2) (s.afterOp Signal.machine (.remove 2)) s' out :=
  ⟨⟨_, _, _, _, rfl, rfl, removed_called_by_running.1 (fun _ _ _ => 0)
      [.op (.addEventListener 0 1 2), .op (.addEventListener 0 2 1), .dispatch 0] [.dispatch 0,
        .returned, .returned]
      0 2 _ _ _ _ rfl (fun o h => by simp at h) rfl⟩,
    ⟨_, _, _, _, rfl, rfl, removed_called_by_running.2 [.op (.add 1), .op (.add 2), .dispatch [1, 2]]
      [.dispatch [1], .returned, .returned] 2 _ _ _ _ rfl (fun o h => by simp at h) rfl⟩⟩

/-- A callback that an earlier one of the same dispatch removed is called all the same. -/
theorem removed_called :
    (¬ ∀ (shape : Nat → Shape) (before actions : List (Move Op Int)) (type : Int) (callback : Nat)
      (s s' : State EventDispatcher (Int × CallbackType)) (out₀ out : List (Option (Call (Int × CallbackType)))),
      runOps (step (machine shape)) (.init new) before = some (s, out₀) →
      (∀ o, .op o ∈ actions → ¬ o.Registers type callback) →
      runOps (step (machine shape)) (s.afterOp (machine shape) (.removeEventListener type callback)) actions =
        some (s', out) →
      called (isCopy type callback) out = 0) ∧
    ¬ ∀ (before actions : List (Move Signal.Op (List Nat))) (callback : Nat) (s s' : State Signal Nat)
      (out₀ out : List (Option (Call Nat))),
      runOps (step Signal.machine) (.init []) before = some (s, out₀) →
      (∀ o, .op o ∈ actions → o ≠ .add callback) →
      runOps (step Signal.machine) (s.afterOp Signal.machine (.remove callback)) actions = some (s', out) →
      called (fun item => item = callback) out = 0 := by
  constructor
  · intro hall
    have hnone := hall (fun _ _ _ => 0) [.op (.addEventListener 0 1 2), .op (.addEventListener 0 2 1), .dispatch 0]
      [.returned] 0 2 _ _ _ _ rfl (fun o h => by simp at h) rfl
    exact absurd hnone (by decide)
  · intro hall
    have hnone := hall [.op (.add 1), .op (.add 2), .dispatch [1, 2]] [.returned] 2 _ _ _ _ rfl
      (fun o h => by simp at h) rfl
    exact absurd hnone (by decide)

/-! ## Listeners that are called once -/

/-- A listener has its place in the order: it is found where it is. -/
def Placed (set : List CallbackType) (cb : CallbackType) : Prop :=
  set.Pairwise fun x y => (x = cb → CallbackType.lt x y) ∧ (y = cb → CallbackType.lt x y)

/-- A `once` listener that was registered at the clock `n` is erased in time: no dispatch of its type
begins while a dispatch begun since calls it or has it still to call, and when its call returns, it has
its place in the order. -/
def ErasedInTime (type : Int) (callback : Nat) (n : Nat) (s : State EventDispatcher (Int × CallbackType)) :
    Move Op Int → Prop
  | .op _ => True
  | .dispatch type' => type' = type → Has type callback s.registry →
      ∀ frame ∈ s.stack, n ≤ frame.begun → ¬ frame.Holds (isCopy type callback)
  | .returned => ∀ frame ∈ s.stack.head?, n ≤ frame.begun → isCopy type callback frame.running = true →
      Placed (s.registry.set type) frame.running.2

/-- The one listener of the callback, if any, is `cb`. -/
def Only (type : Int) (cb : CallbackType) (dispatcher : EventDispatcher) : Prop :=
  dispatcher.Unique ∧ ∀ other ∈ dispatcher.set type, other.callback = cb.callback → other = cb

theorem only_register (h : dispatcher.Unique) (type : Int) (callback : Nat) (priority : Int) (once : Bool) :
    (dispatcher.register shape type callback priority once).Only type ⟨callback, priority, once⟩ := by
  refine ⟨h.register type callback priority once, ?_⟩
  intro other hother heq
  rcases set_register_self dispatcher type callback priority once with
    ⟨front, old, back, hset, hold, hne, hset'⟩ | ⟨hne, -⟩
  · rw [hset'] at hother
    rcases List.mem_append.mp hother with hfront | hback
    · exact absurd heq (hne other hfront)
    · rcases List.mem_cons.mp hback with rfl | hback
      · rfl
      · exact absurd heq (hold ▸ h.ne_behind hset other hback)
  · rcases mem_of_mem_register hother with hold | ⟨-, rfl⟩
    · exact absurd heq (hne other hold)
    · rfl

/-- A listener that has its place is erased. -/
theorem not_has_afterCall {cb : CallbackType} (honly : dispatcher.Only type cb) (honce : cb.once = true)
    (hplaced : Placed (dispatcher.set type) cb) : ¬ Has type cb.callback (dispatcher.afterCall shape type cb) := by
  rintro ⟨other, hother, heq⟩
  obtain rfl := honly.2 other ((set_afterCall_sublist dispatcher type type cb).subset hother) heq
  have hmem := (set_afterCall_sublist dispatcher type type other).subset hother
  obtain ⟨front, back, hset⟩ := List.append_of_mem hmem
  rw [hset] at hplaced
  obtain ⟨-, hback, hcross⟩ := List.pairwise_append.mp hplaced
  have herased : (dispatcher.afterCall shape type other).set type = front ++ back := by
    rw [set_afterCall_self, if_pos honce, hset]
    apply erase_of_split CallbackType.lt_asymm
    · intro x hx
      exact (hcross x hx other (List.mem_cons_self ..)).2 rfl
    · intro x hx
      exact ((List.pairwise_cons.mp hback).1 x hx).1 rfl
  -- it is not less than itself
  have hirrefl : ¬ CallbackType.lt other other := fun h => CallbackType.lt_asymm other other h h
  rw [herased] at hother
  rcases List.mem_append.mp hother with hfront | hback'
  · exact hirrefl ((hcross other hfront other (List.mem_cons_self ..)).2 rfl)
  · exact hirrefl (((List.pairwise_cons.mp hback).1 other hback').1 rfl)

/-- The listener is copied once at most by each dispatch, as it is registered. -/
theorem countP_isCopy_le_one {cb : CallbackType} (honly : dispatcher.Only type cb) (type' : Int) :
    ((dispatcher.set type').map fun other => (type', other)).countP (isCopy type cb.callback) ≤ 1 := by
  by_cases htype : type' = type
  · subst htype
    have hcount : ((dispatcher.set type').map fun other => (type', other)).countP (isCopy type' cb.callback) =
        ((dispatcher.set type').map (·.callback)).count cb.callback := by
      rw [List.countP_map, List.count, List.countP_map]
      apply List.countP_congr
      intro other _
      simp [isCopy]
    rw [hcount]
    exact List.nodup_iff_count_le_one.mp (honly.1 type') cb.callback
  · have hnone : ((dispatcher.set type').map fun other => (type', other)).countP (isCopy type cb.callback) = 0 := by
      apply List.countP_eq_zero.mpr
      intro item hitem hcopy
      obtain ⟨other, -, rfl⟩ := List.mem_map.mp hitem
      exact htype (of_decide_eq_true hcopy).1
    rw [hnone]
    exact Nat.zero_le 1

/-- A `once` listener that is not registered again. -/
theorem registered_once (shape : Nat → Shape) (type : Int) (cb : CallbackType) :
    Registered (machine shape) (isCopy type cb.callback) (type, cb) (Only type cb) (Has type cb.callback)
      fun o => ¬ o.Registers type cb.callback where
  apply := by
    intro dispatcher o honly hnot
    refine ⟨⟨honly.1.apply o, ?_⟩, ?_⟩
    · intro other hother heq
      exact honly.2 other (mem_of_mem_apply hnot hother heq) heq
    · rintro ⟨other, hother, heq⟩
      exact ⟨other, mem_of_mem_apply hnot hother heq, heq⟩
  finish := by
    intro dispatcher copy honly
    have hsub : (dispatcher.afterCall shape copy.1 copy.2).set type ⊆ dispatcher.set type :=
      (set_afterCall_sublist dispatcher copy.1 type copy.2).subset
    refine ⟨⟨honly.1.afterCall copy.1 copy.2, ?_⟩, ?_⟩
    · intro other hother heq
      exact honly.2 other (hsub hother) heq
    · rintro ⟨other, hother, heq⟩
      exact ⟨other, hsub hother, heq⟩
  snapshot := by
    intro dispatcher type' items honly hitems
    cases hitems
    refine ⟨countP_isCopy_le_one honly type', ?_, ?_⟩
    · intro hpos
      obtain ⟨item, hitem, hcopy⟩ := List.countP_pos_iff.mp hpos
      obtain ⟨other, hother, rfl⟩ := List.mem_map.mp hitem
      obtain ⟨rfl, heq⟩ := of_decide_eq_true hcopy
      exact ⟨other, hother, heq⟩
    · intro item hitem hcopy
      obtain ⟨other, hother, rfl⟩ := List.mem_map.mp hitem
      obtain ⟨rfl, heq⟩ := of_decide_eq_true hcopy
      rw [honly.2 other hother heq]

theorem erased_of_erasedInTime {cb : CallbackType} (honce : cb.once = true) {n : Nat}
    {s : State EventDispatcher (Int × CallbackType)} {a : Move Op Int} (honly : Only type cb s.registry)
    (h : ErasedInTime type cb.callback n s a) :
    Erased (machine shape) (isCopy type cb.callback) (type, cb) (Has type cb.callback) n s a := by
  cases a with
  | op o => trivial
  | dispatch type' =>
    intro items hitems hpos
    cases hitems
    obtain ⟨item, hitem, hcopy⟩ := List.countP_pos_iff.mp hpos
    obtain ⟨other, hother, rfl⟩ := List.mem_map.mp hitem
    obtain ⟨rfl, heq⟩ := of_decide_eq_true hcopy
    exact h rfl ⟨other, hother, heq⟩
  | returned =>
    intro frame hframe hbegun hrunning
    have hplaced := h frame hframe hbegun (by rw [hrunning]; exact decide_eq_true ⟨rfl, rfl⟩)
    rw [hrunning] at hplaced
    exact not_has_afterCall honly honce hplaced

/-- **Called once.**  A listener that is registered by `once` while no dispatch of the type has it
still to call, and is not registered again, is called once at most, if it is always erased in time. -/
theorem once_called_once (shape : Nat → Shape) (before actions : List (Move Op Int)) (type : Int) (callback : Nat)
    (priority : Int) {s s' : State EventDispatcher (Int × CallbackType)}
    {out₀ out : List (Option (Call (Int × CallbackType)))}
    (hbefore : runOps (step (machine shape)) (.init new) before = some (s, out₀))
    (hagain : ∀ o, .op o ∈ actions → ¬ o.Registers type callback)
    (hrun : runOps (step (machine shape)) (s.afterOp (machine shape) (.once type callback priority)) actions =
      some (s', out))
    (hwaiting : waiting (isCopy type callback) s.stack = 0)
    (herased : Along (step (machine shape)) (ErasedInTime type callback (s.clock + 1))
      (s.afterOp (machine shape) (.once type callback priority)) actions) :
    called (isCopy type callback) out ≤ 1 := by
  have hbegun : ∀ frame ∈ s.stack, frame.begun < s.clock + 1 :=
    fun frame hframe => Nat.lt_succ_of_lt (begun_lt_clock hbefore frame hframe)
  have honly : Only type ⟨callback, priority,
    true⟩ (s.afterOp (machine shape) (.once type callback priority)).registry :=
    only_register (unique_of_run hbefore) type callback priority true
  exact called_once (registered_once shape type ⟨callback, priority,
    true⟩) (fun _ _ honly h => erased_of_erasedInTime rfl honly h) hagain honly hbegun hwaiting
    herased hrun

instance (p : Int × CallbackType → Bool) (frame : Frame (Int × CallbackType)) : Decidable (frame.Holds p) :=
  inferInstanceAs (Decidable (∃ item ∈ frame.running :: frame.rest, p item = true))

instance (type : Int) (callback : Nat) (dispatcher : EventDispatcher) : Decidable (Has type callback dispatcher) :=
  inferInstanceAs (Decidable (∃ cb ∈ dispatcher.set type, cb.callback = callback))

instance (set : List CallbackType) (cb : CallbackType) : Decidable (Placed set cb) :=
  inferInstanceAs (Decidable (List.Pairwise _ _))

instance (type : Int) (callback n : Nat) (s : State EventDispatcher (Int × CallbackType)) :
    DecidablePred (ErasedInTime type callback n s)
  | .op _ => isTrue trivial
  | .dispatch type' => inferInstanceAs (Decidable (type' = type → Has type callback s.registry →
      ∀ frame ∈ s.stack, n ≤ frame.begun → ¬ frame.Holds (isCopy type callback)))
  | .returned => inferInstanceAs (Decidable (∀ frame ∈ s.stack.head?, n ≤ frame.begun →
      isCopy type callback frame.running = true → Placed (s.registry.set type) frame.running.2))

/-- The listener dispatches another type, and a second dispatch follows. -/
theorem once_called_once_twice :
    ∃ s out, runOps (step (machine fun _ _ _ => 0))
      ((State.init new).afterOp (machine fun _ _ _ => 0) (.once 0 1 0))
        [.dispatch 0, .dispatch 7, .returned, .dispatch 0] = some (s, out) ∧ called (isCopy 0 1) out ≤ 1 :=
  ⟨_, _, rfl, once_called_once (fun _ _ _ => 0) [] [.dispatch 0, .dispatch 7, .returned, .dispatch 0] 0 1 0 rfl
    (fun o h => by simp at h) rfl rfl (by decide)⟩

/-- The listener dispatches its own type: it is called again before it is erased. -/
theorem once_called_twice :
    ¬ ∀ (shape : Nat → Shape) (before actions : List (Move Op Int)) (type : Int) (callback : Nat) (priority : Int)
      (s s' : State EventDispatcher (Int × CallbackType)) (out₀ out : List (Option (Call (Int × CallbackType)))),
      runOps (step (machine shape)) (.init new) before = some (s, out₀) →
      (∀ o, .op o ∈ actions → ¬ o.Registers type callback) →
      runOps (step (machine shape)) (s.afterOp (machine shape)
        (.once type callback priority)) actions = some (s', out) →
      called (isCopy type callback) out ≤ 1 := by
  intro hall
  have honce := hall (fun _ _ _ => 0) [] [.dispatch 0, .dispatch 0] 0 1 0 _ _ _ _ rfl (fun o h => by simp at h) rfl
  exact absurd honce (by decide)

end Libws.Core.EventDispatcher
