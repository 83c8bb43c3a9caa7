import Libws.Lib.Snapshot
import Mathlib.Data.List.Nodup

/-!
# Signals

Model of `Signal` of `core/Signal.h`.  The listeners are a `std::unordered_set`; the order in which a
`notify` goes through its copy is not specified, and comes with the call.
-/

set_option autoImplicit false

namespace Libws.Core

open Libws.Machine Libws.Snapshot

/-- The listeners, by the addresses of their callbacks. -/
abbrev Signal := List Nat

namespace Signal

inductive Op where
  | add (callback : Nat)
  | remove (callback : Nat)
  deriving DecidableEq, Repr

def add (listeners : Signal) (callback : Nat) : Signal := List.insert callback listeners

def remove (listeners : Signal) (callback : Nat) : Signal := List.erase listeners callback

def apply (listeners : Signal) : Op → Signal
  | .add callback => listeners.add callback
  | .remove callback => listeners.remove callback

/-- `notify` step by step, with the copy in the order of its iteration; the callbacks may add, remove
and notify. -/
def machine : Dispatch Signal Nat Op (List Nat) where
  apply := apply
  snapshot listeners tmpList := if tmpList.Perm listeners then some tmpList else none
  finish listeners _ := listeners

/-! ## Each callback once -/

theorem nodup_apply {listeners : Signal} (h : listeners.Nodup) (o : Op) : (listeners.apply o).Nodup := by
  cases o with
  | add callback => exact h.insert
  | remove callback => exact h.erase callback

/-- A callback is registered once at most. -/
theorem nodup_of_run {actions : List (Move Op (List Nat))} {s : State Signal Nat} {out : List (Option (Call Nat))}
    (hrun : runOps (step machine) (.init []) actions = some (s, out)) : s.registry.Nodup := by
  apply runOps_inv (fun s _ _ => s.registry.Nodup) ?_ List.nodup_nil hrun
  intro s _ _ a s' r h hstep
  rcases step_cases hstep with ⟨o, rfl, rfl, rfl⟩ | ⟨d, items, rfl, hitems, hnext⟩ | ⟨top, stack, rfl, hstack, hnext⟩
  · exact nodup_apply h o
  · rw [(proceed_registry hnext).1]
    exact h
  · rw [(proceed_registry hnext).1]
    exact h

/-- Only adding registers a callback. -/
theorem not_mem_apply {listeners : Signal} {callback : Nat} (h : callback ∉ listeners) {o : Op}
    (hadd : o ≠ .add callback) : callback ∉ listeners.apply o := by
  cases o with
  | add other =>
    intro hmem
    rcases List.mem_insert_iff.mp hmem with rfl | hold
    · exact hadd rfl
    · exact h hold
  | remove other =>
    intro hmem
    exact h (List.mem_of_mem_erase hmem)

/-- What is not registered is not copied. -/
theorem not_mem_snapshot {listeners tmpList items : Signal} {callback : Nat} (h : callback ∉ listeners)
    (hitems : machine.snapshot listeners tmpList = some items) :
    ∀ item ∈ items, decide (item = callback) = false := by
  simp only [machine] at hitems
  split at hitems
  · rename_i hperm
    cases hitems
    intro item hitem
    rw [decide_eq_false_iff_not]
    rintro rfl
    exact h (hperm.mem_iff.mp hitem)
  · cases hitems

/-- **A removed callback** is called by no `notify` that begins before it is added again: only those
that ran when it was removed call it, if it was still to come in their copies. -/
theorem calls_after_remove {before actions : List (Move Op (List Nat))} {s s' : State Signal Nat}
    {out₀ out : List (Option (Call Nat))} (callback : Nat)
    (hbefore : runOps (step machine) (.init []) before = some (s, out₀))
    (hadd : ∀ o, .op o ∈ actions → o ≠ .add callback)
    (hrun : runOps (step machine) (s.afterOp machine (.remove callback)) actions = some (s', out)) :
    CalledByRunning (fun item => item = callback) (s.afterOp machine (.remove callback)) s' out := by
  have hgone : callback ∉ (s.afterOp machine (.remove callback)).registry := (nodup_of_run hbefore).not_mem_erase
  have hbegun : ∀ frame ∈ (s.afterOp machine (.remove callback)).stack,
    frame.begun < (s.afterOp machine (.remove callback)).clock :=
    fun frame hframe => Nat.lt_succ_of_lt (begun_lt_clock hbefore frame hframe)
  have hquiet := calls_of_quiet (D := machine) (p := fun item => decide (item = callback))
    (I := fun listeners => callback ∉ listeners) (fun _ _ h hallowed => not_mem_apply h hallowed) (fun _ _ h => h)
    (fun _ _ _ h hitems => not_mem_snapshot h hitems) hadd hgone hbegun hrun
  exact hquiet.calledByRunning

end Signal

end Libws.Core
