import Libws.Lib.OrderedSet
import Libws.Lib.Snapshot

/-!
# The event dispatcher

Model of `wsCore/src/Event.cpp` and of `EventDispatcher` in `core/Event.h`.  The listeners of a type
are a `std::set` ordered by priority and address; registering a callback again changes its priority
in place, so the set need not be in order when it is searched.  The trees that it is searched in are
a parameter, one shape for each search.

* `register`, `removeEventListener`, `dispatchEvent` — as the code does it, the last with callbacks
  that leave the dispatcher alone;
* `machine` — with callbacks that do anything, a call and its return being steps of their own;
* `dispatchEvent_eq_run` — the two agree.
-/

set_option autoImplicit false

namespace Libws.Core

open Libws.Machine Libws.OrderedSet Libws.Snapshot

structure CallbackType where
  /-- the address of an `EventCallback` -/
  callback : Nat
  priority : Int
  once : Bool
  deriving DecidableEq, Repr

namespace CallbackType

/-- `operator<` -/
def lt (cb other : CallbackType) : Prop :=
  if cb.priority = other.priority then cb.callback < other.callback else cb.priority > other.priority

instance : DecidableRel lt := fun cb other =>
  inferInstanceAs (Decidable (if cb.priority = other.priority then cb.callback < other.callback
    else cb.priority > other.priority))

theorem lt_iff {cb other : CallbackType} :
    lt cb other ↔ other.priority < cb.priority ∨ cb.priority = other.priority ∧ cb.callback < other.callback := by
  unfold lt
  split <;> omega

theorem lt_asymm (cb other : CallbackType) (h : lt cb other) : ¬ lt other cb := by
  rw [lt_iff] at h ⊢
  omega

theorem lt_trans (x y z : CallbackType) (hxy : lt x y) (hyz : lt y z) : lt x z := by
  rw [lt_iff] at hxy hyz ⊢
  omega

theorem lt_or_gt {cb other : CallbackType} (h : cb.callback ≠ other.callback) : lt cb other ∨ lt other cb := by
  rw [lt_iff, lt_iff]
  omega

/-- The listener called first has the higher priority. -/
theorem priority_le {cb other : CallbackType} (h : lt cb other) : other.priority ≤ cb.priority := by
  rw [lt_iff] at h
  omega

end CallbackType

structure EventDispatcher where
  listeners : Int → Option (List CallbackType)
  /-- the searches made in the sets so far -/
  searches : Nat

namespace EventDispatcher

def new : EventDispatcher := ⟨fun _ => none, 0⟩

/-- The listeners of a type, in the order of iteration. -/
def set (dispatcher : EventDispatcher) (type : Int) : List CallbackType := (dispatcher.listeners type).getD []

/-- `listeners[type] = set` -/
def put (dispatcher : EventDispatcher) (type : Int) (set : List CallbackType) : EventDispatcher :=
  { dispatcher with listeners := Function.update dispatcher.listeners type (some set) }

@[simp] theorem set_put_self (dispatcher : EventDispatcher) (type : Int) (set : List CallbackType) :
    (dispatcher.put type set).set type = set := by
  show (Function.update dispatcher.listeners type (some set) type).getD [] = set
  rw [Function.update_self]
  rfl

theorem set_put_of_ne (dispatcher : EventDispatcher) {type type' : Int} (h : type' ≠ type)
    (set : List CallbackType) : (dispatcher.put type set).set type' = dispatcher.set type' := by
  show (Function.update dispatcher.listeners type (some set) type').getD [] = (dispatcher.listeners type').getD []
  rw [Function.update_of_ne h]

/-- The loop that looks for the callback, and changes the listener where it is. -/
def overwrite (callback : Nat) (priority : Int) (once : Bool) : List CallbackType → Option (List CallbackType)
  | [] => none
  | cb :: set =>
    if cb.callback = callback then some (⟨cb.callback, priority, once⟩ :: set)
    else (overwrite callback priority once set).map (cb :: ·)

variable (shape : Nat → Shape)

/-- `once` and `addEventListener` are this, but for the kind. -/
def register (dispatcher : EventDispatcher) (type : Int) (callback : Nat) (priority : Int) (once : Bool) :
    EventDispatcher :=
  match overwrite callback priority once (dispatcher.set type) with
  | some set => dispatcher.put type set
  | none =>
    { dispatcher.put type (insert CallbackType.lt (shape dispatcher.searches) ⟨callback, priority, once⟩ (dispatcher.set type))
      with searches := dispatcher.searches + 1 }

def once (dispatcher : EventDispatcher) (type : Int) (callback : Nat) (priority : Int) : EventDispatcher :=
  dispatcher.register shape type callback priority true

def addEventListener (dispatcher : EventDispatcher) (type : Int) (callback : Nat) (priority : Int) :
    EventDispatcher :=
  dispatcher.register shape type callback priority false

def removeEventListener (dispatcher : EventDispatcher) (type : Int) (callback : Nat) : EventDispatcher :=
  match dispatcher.listeners type with
  | none => dispatcher
  | some set => dispatcher.put type (set.eraseP fun cb => cb.callback = callback)

/-- What the loop of `dispatchEvent` does after a call: `iter->second.erase(cb)`. -/
def afterCall (dispatcher : EventDispatcher) (type : Int) (cb : CallbackType) : EventDispatcher :=
  if cb.once then
    { dispatcher.put type (erase CallbackType.lt (shape dispatcher.searches) cb (dispatcher.set type))
      with searches := dispatcher.searches + 1 }
  else dispatcher

/-- `dispatchEvent` with callbacks that leave the dispatcher alone, and the callbacks it calls. -/
def dispatchEvent (dispatcher : EventDispatcher) (type : Int) : EventDispatcher × List Nat :=
  match dispatcher.listeners type with
  | none => (dispatcher, [])
  | some cbList =>
    (cbList.foldl (fun dispatcher cb => dispatcher.afterCall shape type cb) dispatcher, cbList.map (·.callback))

/-! ## Callbacks that do anything -/

inductive Op where
  | once (type : Int) (callback : Nat) (priority : Int)
  | addEventListener (type : Int) (callback : Nat) (priority : Int)
  | removeEventListener (type : Int) (callback : Nat)
  deriving DecidableEq, Repr

def apply (dispatcher : EventDispatcher) : Op → EventDispatcher
  | .once type callback priority => dispatcher.once shape type callback priority
  | .addEventListener type callback priority => dispatcher.addEventListener shape type callback priority
  | .removeEventListener type callback => dispatcher.removeEventListener type callback

/-- `dispatchEvent` step by step: it copies the set, calls the copies, and erases after the call of
a `once` listener; the callbacks may register, remove and dispatch. -/
def machine : Dispatch EventDispatcher (Int × CallbackType) Op Int where
  apply := apply shape
  snapshot dispatcher type := some ((dispatcher.set type).map fun cb => (type, cb))
  finish dispatcher copy := dispatcher.afterCall shape copy.1 copy.2

theorem dispatchEvent_eq (dispatcher : EventDispatcher) (type : Int) :
    dispatcher.dispatchEvent shape type =
      ((dispatcher.set type).foldl (fun dispatcher cb => dispatcher.afterCall shape type cb) dispatcher,
        (dispatcher.set type).map (·.callback)) := by
  unfold dispatchEvent set
  cases dispatcher.listeners type with
  | none => rfl
  | some cbList => rfl

/-- **Callbacks that leave the dispatcher alone**: `dispatchEvent` is the run in which they return
one after the other. -/
theorem dispatchEvent_eq_run (dispatcher : EventDispatcher) (type : Int) (stack : List (Frame (Int × CallbackType)))
    (clock : Nat) :
    ∃ clock' out, runOps (step (machine shape)) ⟨dispatcher, stack, clock⟩
        (.dispatch type :: List.replicate (dispatcher.set type).length .returned) =
          some (⟨(dispatcher.dispatchEvent shape type).1, stack, clock'⟩, out) ∧
      out.filterMap (fun r => r.map (·.item.2.callback)) = (dispatcher.dispatchEvent shape type).2 := by
  have hitems : (machine shape).snapshot dispatcher type =
    some ((dispatcher.set type).map fun cb => (type, cb)) := rfl
  have hrun := run_dispatch hitems stack clock
  rw [List.length_map, List.foldl_map] at hrun
  rw [dispatchEvent_eq]
  refine ⟨_, _, hrun, ?_⟩
  simp [Function.comp_def]

/-! ## The sets -/

variable {shape}

/-- What `overwrite` finds and changes. -/
theorem overwrite_cases (callback : Nat) (priority : Int) (once : Bool) :
    ∀ set : List CallbackType,
      overwrite callback priority once set = none ∧ (∀ cb ∈ set, cb.callback ≠ callback) ∨
        ∃ front old back, set = front ++ old :: back ∧ old.callback = callback ∧
          (∀ cb ∈ front, cb.callback ≠ callback) ∧
          overwrite callback priority once set = some (front ++ ⟨callback, priority, once⟩ :: back)
  | [] => Or.inl ⟨rfl, List.forall_mem_nil _⟩
  | cb :: set => by
    by_cases hcb : cb.callback = callback
    · refine Or.inr ⟨[], cb, set, rfl, hcb, List.forall_mem_nil _, ?_⟩
      rw [overwrite, if_pos hcb, hcb]
      rfl
    · rcases overwrite_cases callback priority once set with ⟨hnone, hne⟩ | ⟨front, old, back, rfl,
        hold, hne, hsome⟩
      · refine Or.inl ⟨?_, List.forall_mem_cons.mpr ⟨hcb, hne⟩⟩
        rw [overwrite, if_neg hcb, hnone]
        rfl
      · refine Or.inr ⟨cb :: front, old, back, rfl, hold, List.forall_mem_cons.mpr ⟨hcb, hne⟩, ?_⟩
        rw [overwrite, if_neg hcb, hsome]
        rfl

/-- What registering does to the set of the type: the listener is changed in place, or inserted. -/
theorem set_register_self (dispatcher : EventDispatcher) (type : Int) (callback : Nat)
    (priority : Int) (once : Bool) :
    (∃ front old back, dispatcher.set type = front ++ old :: back ∧ old.callback = callback ∧
        (∀ cb ∈ front, cb.callback ≠ callback) ∧
        (dispatcher.register shape type callback priority once).set type = front ++ ⟨callback,
          priority, once⟩ :: back) ∨
      (∀ cb ∈ dispatcher.set type, cb.callback ≠ callback) ∧
        (dispatcher.register shape type callback priority once).set type =
          insert CallbackType.lt (shape dispatcher.searches) ⟨callback, priority, once⟩ (dispatcher.set type) := by
  rcases overwrite_cases callback priority once (dispatcher.set type) with
    ⟨hnone, hne⟩ | ⟨front, old, back, hset, hold, hne, hsome⟩
  · refine Or.inr ⟨hne, ?_⟩
    unfold register
    rw [hnone]
    exact set_put_self ..
  · refine Or.inl ⟨front, old, back, hset, hold, hne, ?_⟩
    unfold register
    rw [hsome]
    exact set_put_self ..

theorem set_register_of_ne (dispatcher : EventDispatcher) {type type' : Int} (h : type' ≠ type) (callback : Nat)
    (priority : Int) (once : Bool) :
    (dispatcher.register shape type callback priority once).set type' = dispatcher.set type' := by
  unfold register
  split
  · exact set_put_of_ne dispatcher h _
  · exact set_put_of_ne dispatcher h _

theorem set_removeEventListener_self (dispatcher : EventDispatcher) (type : Int) (callback : Nat) :
    (dispatcher.removeEventListener type callback).set type =
      (dispatcher.set type).eraseP fun cb => cb.callback = callback := by
  unfold removeEventListener
  split
  · rename_i hnone
    unfold set
    rw [hnone]
    rfl
  · rename_i cbList hsome
    rw [set_put_self]
    unfold set
    rw [hsome]
    rfl

theorem set_removeEventListener_of_ne (dispatcher : EventDispatcher) {type type' : Int} (h : type' ≠ type)
    (callback : Nat) : (dispatcher.removeEventListener type callback).set type' = dispatcher.set type' := by
  unfold removeEventListener
  split
  · rfl
  · exact set_put_of_ne dispatcher h _

theorem set_afterCall_self (dispatcher : EventDispatcher) (type : Int) (cb : CallbackType) :
    (dispatcher.afterCall shape type cb).set type =
      if cb.once then erase CallbackType.lt (shape dispatcher.searches) cb (dispatcher.set type) else dispatcher.set type := by
  unfold afterCall
  split
  · exact set_put_self ..
  · rfl

theorem set_afterCall_of_ne (dispatcher : EventDispatcher) {type type' : Int} (h : type' ≠ type)
    (cb : CallbackType) : (dispatcher.afterCall shape type cb).set type' = dispatcher.set type' := by
  unfold afterCall
  split
  · exact set_put_of_ne dispatcher h _
  · rfl

/-! ## Each callback once -/

/-- A callback is registered once at most for a type, whatever the order of the set. -/
def Unique (dispatcher : EventDispatcher) : Prop := ∀ type, ((dispatcher.set type).map (·.callback)).Nodup

variable {dispatcher : EventDispatcher}

theorem unique_new : Unique new := fun _ => List.nodup_nil

theorem Unique.register (h : dispatcher.Unique) (type : Int) (callback : Nat) (priority : Int) (once : Bool) :
    (dispatcher.register shape type callback priority once).Unique := by
  intro type'
  have hunique := h type'
  by_cases htype : type' = type
  · subst htype
    rcases set_register_self dispatcher type' callback priority once with
      ⟨front, old, back, hset, rfl, -, hset'⟩ | ⟨hne, hset'⟩
    · rw [hset, List.map_append, List.map_cons] at hunique
      rw [hset', List.map_append, List.map_cons]
      exact hunique
    · rw [hset']
      rcases insert_perm CallbackType.lt (shape dispatcher.searches) ⟨callback, priority, once⟩
        (dispatcher.set type') with hsame | hperm
      · rw [hsame]
        exact hunique
      · rw [(hperm.map _).nodup_iff, List.map_cons, List.nodup_cons]
        refine ⟨?_, hunique⟩
        intro hmem
        obtain ⟨cb, hcb, heq⟩ := List.mem_map.mp hmem
        exact hne cb hcb heq
  · rw [set_register_of_ne dispatcher htype]
    exact hunique

theorem Unique.removeEventListener (h : dispatcher.Unique) (type : Int) (callback : Nat) :
    (dispatcher.removeEventListener type callback).Unique := by
  intro type'
  by_cases htype : type' = type
  · subst htype
    rw [set_removeEventListener_self]
    exact (h type').sublist (List.eraseP_sublist.map _)
  · rw [set_removeEventListener_of_ne dispatcher htype]
    exact h type'

theorem Unique.ne_behind (h : dispatcher.Unique) {type : Int} {front back : List CallbackType} {old : CallbackType}
    (hset : dispatcher.set type = front ++ old :: back) : ∀ cb ∈ back, cb.callback ≠ old.callback := by
  have hnodup := h type
  rw [hset, List.map_append, List.map_cons] at hnodup
  have htail := (List.nodup_cons.mp (List.nodup_append.mp hnodup).2.1).1
  intro cb hcb heq
  exact htail (heq ▸ List.mem_map_of_mem hcb)

theorem Unique.ne_of_removed (h : dispatcher.Unique) (type : Int) (callback : Nat) :
    ∀ cb ∈ (dispatcher.removeEventListener type callback).set type, cb.callback ≠ callback := by
  intro cb hcb heq
  rw [set_removeEventListener_self] at hcb
  obtain ⟨old, front, back, hne, hold, hset, hset'⟩ := List.exists_of_eraseP
    (p := fun cb : CallbackType => decide (cb.callback = callback)) (List.mem_of_mem_eraseP hcb)
    (decide_eq_true heq)
  rw [hset'] at hcb
  rcases List.mem_append.mp hcb with hfront | hback
  · exact hne cb hfront (decide_eq_true heq)
  · exact h.ne_behind hset cb hback (heq.trans (of_decide_eq_true hold).symm)

/-- What follows a call takes listeners out, and only of its type. -/
theorem set_afterCall_sublist (dispatcher : EventDispatcher) (type type' : Int) (cb : CallbackType) :
    ((dispatcher.afterCall shape type cb).set type').Sublist (dispatcher.set type') := by
  by_cases htype : type' = type
  · subst htype
    rw [set_afterCall_self]
    split
    · exact erase_sublist CallbackType.lt_asymm ..
    · exact List.Sublist.refl _
  · rw [set_afterCall_of_ne dispatcher htype]

theorem Unique.afterCall (h : dispatcher.Unique) (type : Int) (cb : CallbackType) :
    (dispatcher.afterCall shape type cb).Unique :=
  fun type' => (h type').sublist ((set_afterCall_sublist dispatcher type type' cb).map _)

theorem Unique.apply (h : dispatcher.Unique) (o : Op) : (dispatcher.apply shape o).Unique := by
  cases o with
  | once type callback priority => exact h.register type callback priority true
  | addEventListener type callback priority => exact h.register type callback priority false
  | removeEventListener type callback => exact h.removeEventListener type callback

end EventDispatcher

end Libws.Core
