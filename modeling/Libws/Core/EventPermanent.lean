import Libws.Core.EventRuns

/-!
# A `once` listener that is made permanent

A callback may turn a `once` listener into a permanent one while dispatches run that copied it before.  What
they erase afterwards is found by the key of their copies, in a set whose order the registration has changed.

* `Spares` — what a call that returns has erased is not the listener;
* `spares_iff_of_sorted` — in a set that is in order: the call is not that of a copy with the same callback and
  the same priority;
* `made_permanent_iff` — every run that does not touch the listener again.
-/

set_option autoImplicit false

namespace Libws.Core.EventDispatcher

open Libws.Machine Libws.OrderedSet Libws.Snapshot

/-- The operation registers the callback for the type, or removes it. -/
def Op.Concerns (type : Int) (callback : Nat) : Op → Prop
  | .once type' callback' _ => type' = type ∧ callback' = callback
  | .addEventListener type' callback' _ => type' = type ∧ callback' = callback
  | .removeEventListener type' callback' => type' = type ∧ callback' = callback

/-- The listener is registered, and the next dispatch of its type calls it. -/
def Lasts (shape : Nat → Shape) (type : Int) (cb : CallbackType) (dispatcher : EventDispatcher) : Prop :=
  cb ∈ dispatcher.set type ∧ cb.callback ∈ (dispatcher.dispatchEvent shape type).2

/-- When the call of a `once` copy of the type returns, the places that `erase` finds for its key are not those
    of the listener. -/
def Spares (shape : Nat → Shape) (type : Int) (callback : Nat) (s : State EventDispatcher (Int × CallbackType)) :
    Move Op Int → Prop
  | .op _ | .dispatch _ => True
  | .returned => ∀ frame ∈ s.stack.head?, frame.running.1 = type → frame.running.2.once = true →
      ∀ (i : Nat) cb, (s.registry.set type)[i]? = some cb → cb.callback = callback →
        i < lowerBound CallbackType.lt (shape s.registry.searches) frame.running.2 (s.registry.set type) ∨
          upperBound CallbackType.lt (shape s.registry.searches) frame.running.2 (s.registry.set type) ≤ i

variable {shape : Nat → Shape} {dispatcher : EventDispatcher} {type : Int} {callback : Nat}

theorem lasts_iff {cb : CallbackType} : Lasts shape type cb dispatcher ↔ cb ∈ dispatcher.set type := by
  refine ⟨fun h => h.1, fun h => ⟨h, ?_⟩⟩
  rw [dispatchEvent_eq]
  exact List.mem_map_of_mem h

/-! ## Operations -/

/-- A registration of another callback takes no listener away. -/
theorem mem_register_of_mem {type' : Int} {callback' : Nat} {priority : Int} {once : Bool} {cb : CallbackType}
    (hother : ¬ (type' = type ∧ callback' = cb.callback)) (h : cb ∈ dispatcher.set type) :
    cb ∈ (dispatcher.register shape type' callback' priority once).set type := by
  by_cases htype : type = type'
  · subst htype
    rcases set_register_self dispatcher type callback' priority once with
      ⟨front, old, back, hset, hold, -, hset'⟩ | ⟨-, hset'⟩
    · rw [hset] at h
      rw [hset']
      rcases List.mem_append.mp h with hfront | hback
      · exact List.mem_append_left _ hfront
      · rcases List.mem_cons.mp hback with rfl | hback
        · exact absurd ⟨rfl, hold.symm⟩ hother
        · exact List.mem_append_right _ (List.mem_cons_of_mem _ hback)
    · rw [hset']
      rcases insert_perm CallbackType.lt (shape dispatcher.searches) ⟨callback', priority, once⟩ (dispatcher.set type) with
        hsame | hperm
      · rw [hsame]
        exact h
      · exact hperm.mem_iff.mpr (List.mem_cons_of_mem _ h)
  · rw [set_register_of_ne dispatcher htype]
    exact h

/-- An operation on other listeners. -/
theorem mem_apply_iff {o : Op} {cb : CallbackType} (hother : ¬ o.Concerns type cb.callback) :
    cb ∈ (dispatcher.apply shape o).set type ↔ cb ∈ dispatcher.set type := by
  constructor
  · intro h
    refine mem_of_mem_apply (fun hregisters => hother ?_) h rfl
    cases o with
    | once type' callback' priority => exact hregisters
    | addEventListener type' callback' priority => exact hregisters
    | removeEventListener type' callback' => exact absurd hregisters id
  · intro h
    cases o with
    | once type' callback' priority => exact mem_register_of_mem hother h
    | addEventListener type' callback' priority => exact mem_register_of_mem hother h
    | removeEventListener type' callback' =>
      show cb ∈ (dispatcher.removeEventListener type' callback').set type
      by_cases htype : type = type'
      · subst htype
        rw [set_removeEventListener_self]
        refine (List.mem_eraseP_of_neg ?_).mpr h
        rw [decide_eq_true_iff]
        exact fun heq => hother ⟨rfl, heq.symm⟩
      · rw [set_removeEventListener_of_ne dispatcher htype]
        exact h

/-- A `once` listener that is registered again is permanent. -/
theorem mem_addEventListener {priority : Int} (h : Has type callback dispatcher) :
    (⟨callback, priority, false⟩ : CallbackType) ∈ (dispatcher.addEventListener shape type callback priority).set type := by
  rcases set_register_self dispatcher type callback priority false with ⟨front, old, back, -, -, -, hset'⟩ | ⟨hne, -⟩
  · unfold addEventListener
    rw [hset']
    exact List.mem_append_right _ (List.mem_cons_self ..)
  · obtain ⟨cb, hcb, heq⟩ := h
    exact absurd heq (hne cb hcb)

/-! ## Calls that return -/

theorem Unique.set_nodup (h : dispatcher.Unique) : (dispatcher.set type).Nodup := (h type).of_map _

/-- What follows a call leaves the listener exactly if it spares it. -/
theorem mem_afterCall_iff {cb : CallbackType} (hunique : dispatcher.Unique) (type' : Int) (copy : CallbackType) :
    cb ∈ (dispatcher.afterCall shape type' copy).set type ↔ cb ∈ dispatcher.set type ∧
      (type' = type → copy.once = true → ∀ (i : Nat) other, (dispatcher.set type)[i]? = some other →
        other.callback = cb.callback →
          i < lowerBound CallbackType.lt (shape dispatcher.searches) copy (dispatcher.set type) ∨
            upperBound CallbackType.lt (shape dispatcher.searches) copy (dispatcher.set type) ≤ i) := by
  by_cases htype : type = type'
  · subst htype
    rw [set_afterCall_self]
    split
    · rename_i honce
      constructor
      · intro h
        have hmem := (erase_sublist CallbackType.lt_asymm _ _ _).subset h
        refine ⟨hmem, fun _ _ i other hi heq => ?_⟩
        have hsame : other = cb := List.inj_on_of_nodup_map (hunique type) (List.mem_of_getElem? hi) hmem heq
        exact (mem_erase_iff hunique.set_nodup (hsame ▸ hi)).mp h
      · rintro ⟨hmem, hspares⟩
        obtain ⟨i, hi⟩ := List.getElem?_of_mem hmem
        exact (mem_erase_iff hunique.set_nodup hi).mpr (hspares rfl honce i cb hi rfl)
    · rename_i honce
      exact ⟨fun h => ⟨h, fun _ honce' => absurd honce' honce⟩, fun h => h.1⟩
  · rw [set_afterCall_of_ne dispatcher htype]
    exact ⟨fun h => ⟨h, fun heq => absurd heq.symm htype⟩, fun h => h.1⟩

/-- **One step** that does not concern the listener. -/
theorem step_lasts (cb : CallbackType) {s s' : State EventDispatcher (Int × CallbackType)} {a : Move Op Int}
    {r : Option (Call (Int × CallbackType))} (hunique : s.registry.Unique)
    (hother : ∀ o, a = .op o → ¬ o.Concerns type cb.callback)
    (hstep : Snapshot.step (machine shape) s a = some (s', r)) :
    cb ∈ s'.registry.set type ↔ cb ∈ s.registry.set type ∧ Spares shape type cb.callback s a := by
  rcases step_cases hstep with ⟨o, rfl, rfl, rfl⟩ | ⟨d, items, rfl, hitems, hnext⟩ | ⟨frame, stack, rfl, hstack, hnext⟩
  · exact (mem_apply_iff (hother o rfl)).trans (and_iff_left trivial).symm
  · rw [(proceed_registry hnext).1]
    exact (and_iff_left trivial).symm
  · rw [(proceed_registry hnext).1]
    refine (mem_afterCall_iff hunique frame.running.1 frame.running.2).trans (and_congr_right fun _ => ?_)
    unfold Spares
    rw [hstack, List.head?_cons]
    exact ⟨fun h frame' hframe => by cases hframe; exact h, fun h => h frame rfl⟩

/-! ## Sets in order -/

/-- Two listeners of the same key. -/
def SameKey (cb other : CallbackType) : Prop := cb.callback = other.callback ∧ cb.priority = other.priority

theorem lt_of_sameKey {cb other : CallbackType} (h : SameKey cb other) (x : CallbackType) :
    (CallbackType.lt x cb ↔ CallbackType.lt x other) ∧ (CallbackType.lt cb x ↔ CallbackType.lt other x) := by
  simp only [CallbackType.lt_iff, h.1, h.2, and_self]

theorem lt_of_not_sameKey {cb other : CallbackType} (h : ¬ SameKey cb other) :
    CallbackType.lt cb other ∨ CallbackType.lt other cb := by
  unfold SameKey at h
  rw [CallbackType.lt_iff, CallbackType.lt_iff]
  omega

/-- In a set that is in order, `erase` takes the place of the listener of the same key, and no other. -/
theorem erased_place_iff (shape : Shape) {set : List CallbackType} (hsorted : set.Pairwise CallbackType.lt)
    (copy : CallbackType) {i : Nat} {cb : CallbackType} (hi : set[i]? = some cb) :
    (i < lowerBound CallbackType.lt shape copy set ∨ upperBound CallbackType.lt shape copy set ≤ i) ↔
      ¬ SameKey copy cb := by
  by_cases hequal : ∃ x ∈ set, SameKey copy x
  · obtain ⟨x, hx, hkey⟩ := hequal
    obtain ⟨front, back, rfl⟩ := List.append_of_mem hx
    obtain ⟨-, hback, hcross⟩ := List.pairwise_append.mp hsorted
    have hirrefl : ¬ CallbackType.lt x x := fun h => CallbackType.lt_asymm x x h h
    obtain ⟨hlower, hupper⟩ := bounds_of_equal CallbackType.lt_asymm shape
      (fun y hy => (lt_of_sameKey hkey y).1.mpr (hcross y hy x (List.mem_cons_self ..)))
      ⟨fun h => hirrefl ((lt_of_sameKey hkey x).1.mp h), fun h => hirrefl ((lt_of_sameKey hkey x).2.mp h)⟩
      (fun y hy => (lt_of_sameKey hkey y).2.mpr ((List.pairwise_cons.mp hback).1 y hy))
    rw [hlower, hupper]
    -- it is that listener exactly if it stands there
    have hplace : i = front.length ↔ SameKey copy cb := by
      constructor
      · rintro rfl
        rw [List.getElem?_append_right (Nat.le_refl _), Nat.sub_self] at hi
        cases hi
        exact hkey
      · intro hsame
        have hnot : ∀ y, CallbackType.lt y cb ↔ CallbackType.lt y x := fun y =>
          (lt_of_sameKey hsame y).1.symm.trans (lt_of_sameKey hkey y).1
        obtain hlt | heq | hgt := Nat.lt_trichotomy i front.length
        · rw [List.getElem?_append_left hlt] at hi
          have hbefore := hcross cb (List.mem_of_getElem? hi) x (List.mem_cons_self ..)
          exact absurd ((hnot cb).mpr hbefore) fun h => CallbackType.lt_asymm cb cb h h
        · exact heq
        · rw [List.getElem?_append_right (Nat.le_of_lt hgt)] at hi
          obtain ⟨k, hk⟩ := Nat.exists_eq_add_of_lt hgt
          rw [hk, show front.length + k + 1 - front.length = k + 1 by omega, List.getElem?_cons_succ] at hi
          have hbehind := (List.pairwise_cons.mp hback).1 cb (List.mem_of_getElem? hi)
          exact absurd ((hnot x).mp hbehind) hirrefl
    rw [← hplace]
    omega
  · have hcomparable : ∀ x ∈ set, CallbackType.lt x copy ∨ CallbackType.lt copy x := fun x hx =>
      (lt_of_not_sameKey fun hkey => hequal ⟨x, hx, hkey⟩).symm
    have hnone : ¬ SameKey copy cb := fun hkey => hequal ⟨cb, List.mem_of_getElem? hi, hkey⟩
    obtain ⟨front, back, rfl, hfront, hback⟩ := split_of_sorted CallbackType.lt_trans hsorted hcomparable
    rw [lowerBound_of_split shape hfront fun x hx => CallbackType.lt_asymm _ _ (hback x hx),
      upperBound_of_split shape (fun x hx => CallbackType.lt_asymm _ _ (hfront x hx)) hback]
    exact ⟨fun _ => hnone, fun _ => Nat.lt_or_ge i front.length⟩

/-- **In a set that is in order**, the call spares the listener unless it is that of a copy of the same key. -/
theorem spares_iff_of_sorted {s : State EventDispatcher (Int × CallbackType)} {cb : CallbackType}
    (hunique : s.registry.Unique) (hsorted : (s.registry.set type).Pairwise CallbackType.lt)
    (hmem : cb ∈ s.registry.set type) :
    Spares shape type cb.callback s .returned ↔ ∀ frame ∈ s.stack.head?, frame.running.1 = type →
      frame.running.2.once = true → ¬ SameKey frame.running.2 cb := by
  obtain ⟨i, hi⟩ := List.getElem?_of_mem hmem
  refine forall_congr' fun frame => forall_congr' fun _ => forall_congr' fun _ => forall_congr' fun _ => ?_
  constructor
  · intro h
    exact (erased_place_iff _ hsorted _ hi).mp (h i cb hi rfl)
  · intro h j other hj heq
    have hsame : other = cb := List.inj_on_of_nodup_map (hunique type) (List.mem_of_getElem? hj) hmem heq
    exact (erased_place_iff _ hsorted _ hj).mpr (hsame ▸ h)

/-! ## Runs -/

/-- **A `once` listener that is made permanent stays exactly as long as every call that returns spares it**; in a
set that is in order, it does so unless it is that of a copy of the same callback with the same priority. -/
theorem made_permanent_iff (shape : Nat → Shape) (before actions : List (Move Op Int)) (type : Int) (callback : Nat)
    (priority : Int) (s s' : State EventDispatcher (Int × CallbackType))
    (out₀ out : List (Option (Call (Int × CallbackType))))
    (hbefore : runOps (step (machine shape)) (.init new) before = some (s, out₀))
    (honce : ∃ cb ∈ s.registry.set type, cb.callback = callback ∧ cb.once = true)
    (hagain : ∀ o, .op o ∈ actions → ¬ o.Concerns type callback)
    (hrun : runOps (step (machine shape)) (s.afterOp (machine shape) (.addEventListener type callback priority)) actions =
      some (s', out)) :
    (Lasts shape type ⟨callback, priority, false⟩ s'.registry ↔
      Along (step (machine shape)) (Spares shape type callback)
        (s.afterOp (machine shape) (.addEventListener type callback priority)) actions) ∧
      ((s'.registry.set type).Pairwise CallbackType.lt → Lasts shape type ⟨callback, priority, false⟩ s'.registry →
        (Spares shape type callback s' .returned ↔ ∀ frame ∈ s'.stack.head?, frame.running.1 = type →
          frame.running.2.once = true → ¬ SameKey frame.running.2 ⟨callback, priority, false⟩)) := by
  have hunique : (s.afterOp (machine shape) (.addEventListener type callback priority)).registry.Unique :=
    (unique_of_run hbefore).apply (.addEventListener type callback priority)
  have hmem : (⟨callback, priority, false⟩ : CallbackType) ∈
      (s.afterOp (machine shape) (.addEventListener type callback priority)).registry.set type := by
    obtain ⟨cb, hcb, heq, -⟩ := honce
    exact mem_addEventListener ⟨cb, hcb, heq⟩
  have hops : ∀ a ∈ actions, ∀ o, a = .op o → ¬ o.Concerns type callback :=
    fun a ha o heq => hagain o (heq ▸ ha)
  have hkept : ∀ (s : State EventDispatcher (Int × CallbackType)) (a : Move Op Int)
      (s' : State EventDispatcher (Int × CallbackType)) (r : Option (Call (Int × CallbackType))),
        s.registry.Unique →
      (∀ o, a = .op o → ¬ o.Concerns type callback) → step (machine shape) s a = some (s', r) →
      (⟨callback, priority, false⟩ ∈ s'.registry.set type ↔
        ⟨callback, priority, false⟩ ∈ s.registry.set type ∧ Spares shape type callback s a) :=
    fun _ _ _ _ h hother hstep => step_lasts ⟨callback, priority, false⟩ h hother hstep
  refine ⟨?_, fun hsorted hlasts => spares_iff_of_sorted ?_ hsorted (lasts_iff.mp hlasts)⟩
  · have hlast : ⟨callback, priority, false⟩ ∈ s'.registry.set type ↔
        ⟨callback, priority, false⟩ ∈ (s.afterOp (machine shape)
          (.addEventListener type callback priority)).registry.set type ∧
          Along (step (machine shape)) (Spares shape type callback)
            (s.afterOp (machine shape) (.addEventListener type callback priority)) actions :=
      last_iff_along_of (fun s => s.registry.Unique)
        (fun _ _ _ _ h _ hstep => step_unique h hstep) hkept hops hunique hrun
    rw [lasts_iff, hlast]
    exact and_iff_right hmem
  · exact runOps_inv (fun s _ _ => s.registry.Unique) (fun _ _ _ _ _ _ h hstep => step_unique h hstep) hunique hrun

/-- The listener is made permanent with another priority, from its own call. -/
theorem made_permanent_other_priority : ∃ s s' out₀ out,
    runOps (step (machine fun _ _ _ => 0)) (.init new) [.op (.once 0 1 0), .dispatch 0] = some (s, out₀) ∧
      runOps (step (machine fun _ _ _ => 0)) (s.afterOp (machine fun _ _ _ => 0)
        (.addEventListener 0 1 5)) [.returned] =
        some (s', out) ∧ s'.stack = [] ∧ Lasts (fun _ _ _ => 0) 0 ⟨1, 5, false⟩ s'.registry := by
  refine ⟨_, _, _, _, rfl, rfl, rfl, ?_⟩
  refine (made_permanent_iff (fun _ _ _ => 0) [.op (.once 0 1 0), .dispatch 0] [.returned] 0 1 5 _ _ _ _ rfl
    ⟨⟨1, 0, true⟩, by decide, by decide⟩ (fun o h => by simp at h) rfl).1.mpr ⟨fun frame hframe _ _ i cb hi _ => ?_, fun _ _ _ => trivial⟩
  cases hframe
  cases i with
  | zero => exact Or.inl (by decide)
  | succ i => cases hi

/-- **The listener is made permanent with the same priority**, from its own call: it is erased when this returns. -/
theorem permanent_erased : ¬ ∀ (shape : Nat → Shape) (before actions : List (Move Op Int))
    (type : Int) (callback : Nat)
    (priority : Int) (s s' : State EventDispatcher (Int × CallbackType)) (out₀ out : List (Option (Call (Int × CallbackType)))),
    runOps (step (machine shape)) (.init new) before = some (s, out₀) →
      (∃ cb ∈ s.registry.set type, cb.callback = callback ∧ cb.once = true) →
      (∀ o, .op o ∈ actions → ¬ o.Concerns type callback) →
      runOps (step (machine shape)) (s.afterOp (machine shape) (.addEventListener type callback priority)) actions =
        some (s', out) → Lasts shape type ⟨callback, priority, false⟩ s'.registry := by
  intro hclaim
  have hlasts := hclaim (fun _ _ _ => 0) [.op (.once 0 1 0), .dispatch 0] [.returned] 0 1 0 _ _ _ _ rfl
    ⟨⟨1, 0, true⟩, by decide, by decide⟩ (fun o h => by simp at h) rfl
  exact absurd hlasts.1 (by decide)

end Libws.Core.EventDispatcher
