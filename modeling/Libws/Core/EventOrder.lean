import Libws.Core.Event

/-!
# Listeners are called in the order of their priorities

A registry is what the dispatcher is for: the priority and the kind that each callback was last
registered with, for each type.  The sets of the dispatcher show it, and keep their order as long as
no callback is registered again with a priority that moves it past another one.

* `Shows` — the sets hold what the registry does;
* `register_ordered`, `set_dispatchEvent` — what a request does to a set that is in order;
* `called_in_order` — every run of requests.
-/

set_option autoImplicit false

namespace Libws.Core

open Libws.Machine Libws.OrderedSet

/-- The latest registration of each callback, for each type. -/
abbrev Registry := (type : Int) → (callback : Nat) → Option (Int × Bool)

namespace EventDispatcher

inductive Request where
  | op (o : Op)
  | dispatchEvent (type : Int)
  deriving DecidableEq, Repr

/-- A request from outside of any callback; a dispatch returns the callbacks that it calls. -/
def request (shape : Nat → Shape) (dispatcher : EventDispatcher) :
    Request → Option (EventDispatcher × Option (List Nat))
  | .op o => some (dispatcher.apply shape o, none)
  | .dispatchEvent type =>
    some ((dispatcher.dispatchEvent shape type).1, some (dispatcher.dispatchEvent shape type).2)

end EventDispatcher

namespace Registry

open EventDispatcher

def empty : Registry := fun _ _ => none

def put (registry : Registry) (type : Int) (callback : Nat) (entry : Option (Int × Bool)) : Registry :=
  fun type' callback' => if type' = type ∧ callback' = callback then entry else registry type' callback'

def apply (registry : Registry) : Op → Registry
  | .once type callback priority => registry.put type callback (some (priority, true))
  | .addEventListener type callback priority => registry.put type callback (some (priority, false))
  | .removeEventListener type callback => registry.put type callback none

/-- A dispatch is to call what is registered for its type, and ends the registrations by `once`. -/
def request (registry : Registry) : Request → Registry × Option (Nat → Option (Int × Bool))
  | .op o => (registry.apply o, none)
  | .dispatchEvent type =>
    (fun type' callback =>
      if type' = type ∧ (registry type' callback).any (·.2) then none else registry type' callback,
      some (registry type))

end Registry

namespace EventDispatcher

/-- A callback that is registered again stays between the same other callbacks of the type. -/
def KeepsPlace (registry : Registry) (type : Int) (callback : Nat) (priority : Int) : Prop :=
  ∀ old, registry type callback = some old → ∀ other entry, registry type other = some entry → other ≠ callback →
    (CallbackType.lt ⟨other, entry.1, entry.2⟩ ⟨callback, old.1, old.2⟩ ↔
      CallbackType.lt ⟨other, entry.1, entry.2⟩ ⟨callback, priority, old.2⟩)

/-- No registration moves a callback past another one. -/
def InPlace (registry : Registry) : Request → Prop
  | .op (.once type callback priority) => KeepsPlace registry type callback priority
  | .op (.addEventListener type callback priority) => KeepsPlace registry type callback priority
  | .op (.removeEventListener _ _) | .dispatchEvent _ => True

/-- Each callback is registered once at most, as it was registered last. -/
structure Shows (dispatcher : EventDispatcher) (registry : Registry) : Prop where
  unique : dispatcher.Unique
  mem : ∀ type cb, cb ∈ dispatcher.set type ↔ registry type cb.callback = some (cb.priority, cb.once)

/-- A dispatch calls what is registered, each callback once, the higher priorities first. -/
def CalledInOrder : Option (List Nat) → Option (Nat → Option (Int × Bool)) → Prop
  | none, none => True
  | some calls, some registered =>
    calls.Nodup ∧ (∀ callback, callback ∈ calls ↔ (registered callback).isSome) ∧
      calls.Pairwise fun callback later => ∀ entry entry', registered callback = some entry →
        registered later = some entry' → entry'.1 ≤ entry.1
  | _, _ => False

/-- The sets are in order. -/
def Ordered (dispatcher : EventDispatcher) : Prop := ∀ type, (dispatcher.set type).Pairwise CallbackType.lt

variable {shape : Nat → Shape} {dispatcher : EventDispatcher} {registry : Registry}

/-! ## Registering -/

/-- The listeners of a type after a registration. -/
theorem mem_register (hunique : dispatcher.Unique) (hordered : dispatcher.Ordered) (type : Int) (callback : Nat)
    (priority : Int) (once : Bool) (cb : CallbackType) :
    cb ∈ (dispatcher.register shape type callback priority once).set type ↔
      if cb.callback = callback then cb = ⟨callback, priority, once⟩ else cb ∈ dispatcher.set type := by
  rcases set_register_self dispatcher type callback priority once with
    ⟨front, old, back, hset, hold, hne, hset'⟩ | ⟨hne, hset'⟩
  · have hback := hold ▸ hunique.ne_behind hset
    rw [hset', hset, List.mem_append, List.mem_cons, List.mem_append, List.mem_cons]
    split
    · rename_i hcb
      constructor
      · rintro (hfront | heq | hmem)
        · exact absurd hcb (hne cb hfront)
        · exact heq
        · exact absurd hcb (hback cb hmem)
      · intro heq
        exact Or.inr (Or.inl heq)
    · rename_i hcb
      constructor
      · rintro (hfront | rfl | hmem)
        · exact Or.inl hfront
        · exact absurd rfl hcb
        · exact Or.inr (Or.inr hmem)
      · rintro (hfront | rfl | hmem)
        · exact Or.inl hfront
        · exact absurd hold hcb
        · exact Or.inr (Or.inr hmem)
  · have hkey : ∀ cb ∈ dispatcher.set type, CallbackType.lt cb ⟨callback, priority, once⟩ ∨
        CallbackType.lt ⟨callback, priority, once⟩ cb := fun cb hcb => CallbackType.lt_or_gt (hne cb hcb)
    have hperm := (insert_sorted CallbackType.lt_asymm CallbackType.lt_trans (shape dispatcher.searches)
      (hordered type)
      hkey).2
    rw [hset', hperm.mem_iff, List.mem_cons]
    split
    · rename_i hcb
      constructor
      · rintro (heq | hmem)
        · exact heq
        · exact absurd hcb (hne cb hmem)
      · intro heq
        exact Or.inl heq
    · rename_i hcb
      constructor
      · rintro (rfl | hmem)
        · exact absurd rfl hcb
        · exact hmem
      · intro hmem
        exact Or.inr hmem

/-- **The order is kept** by a registration that leaves the callback in its place. -/
theorem register_ordered (hshows : dispatcher.Shows registry) (hordered : dispatcher.Ordered) {type : Int}
    {callback : Nat} {priority : Int} (hplace : KeepsPlace registry type callback priority) (once : Bool) :
    (dispatcher.register shape type callback priority once).Ordered := by
  intro type'
  by_cases htype : type' = type
  · subst htype
    rcases set_register_self dispatcher type' callback priority once with
      ⟨front, old, back, hset, hold, hne, hset'⟩ | ⟨hne, hset'⟩
    · have hsorted := hordered type'
      rw [hset] at hsorted
      obtain ⟨hfront, hback, hcross⟩ := List.pairwise_append.mp hsorted
      obtain ⟨hhead, htail⟩ := List.pairwise_cons.mp hback
      -- the other listeners compare with the new priority as with the old one
      have hsame : ∀ other ∈ front ++ back, other.callback ≠ callback →
          (CallbackType.lt other old ↔ CallbackType.lt other ⟨callback, priority, once⟩) := by
        intro other hother hcallback
        have hmem : other ∈ dispatcher.set type' := by
          rw [hset]
          rcases List.mem_append.mp hother with hmem | hmem
          · exact List.mem_append_left _ hmem
          · exact List.mem_append_right _ (List.mem_cons_of_mem old hmem)
        have hold' : old ∈ dispatcher.set type' := by
          rw [hset]
          exact List.mem_append_right _ (List.mem_cons_self ..)
        have hentry := (hshows.mem type' other).mp hmem
        have hentry' := (hshows.mem type' old).mp hold'
        rw [hold] at hentry'
        have hiff := hplace _ hentry' other.callback _ hentry hcallback
        rw [← hold] at hiff ⊢
        exact hiff
      rw [hset']
      refine List.pairwise_append.mpr ⟨hfront, List.pairwise_cons.mpr ⟨?_, htail⟩, ?_⟩
      · intro other hother
        have hcallback : other.callback ≠ callback := hold ▸ hshows.unique.ne_behind hset other hother
        have hkey : CallbackType.lt other ⟨callback, priority, once⟩ ∨
          CallbackType.lt ⟨callback, priority, once⟩ other :=
          CallbackType.lt_or_gt hcallback
        rcases hkey with hlt | hgt
        · have hbefore := (hsame other (List.mem_append_right _ hother) hcallback).mpr hlt
          exact absurd (hhead other hother) (CallbackType.lt_asymm _ _ hbefore)
        · exact hgt
      · intro cb hcb later hlater
        rcases List.mem_cons.mp hlater with rfl | hlater
        · exact (hsame cb (List.mem_append_left _ hcb) (hne cb hcb)).mp (hcross cb hcb old (List.mem_cons_self ..))
        · exact hcross cb hcb later (List.mem_cons_of_mem old hlater)
    · rw [hset']
      exact (insert_sorted CallbackType.lt_asymm CallbackType.lt_trans (shape dispatcher.searches) (hordered type')
        fun cb hcb => CallbackType.lt_or_gt (hne cb hcb)).1
  · rw [set_register_of_ne dispatcher htype]
    exact hordered type'

theorem register_shows (hshows : dispatcher.Shows registry) (hordered : dispatcher.Ordered)
    (type : Int) (callback : Nat) (priority : Int) (once : Bool) :
    (dispatcher.register shape type callback priority once).Shows (registry.put type callback (some (priority, once))) where
  unique := hshows.unique.register type callback priority once
  mem := by
    intro type' cb
    by_cases htype : type' = type
    · subst htype
      rw [mem_register hshows.unique hordered]
      by_cases hcb : cb.callback = callback
      · rw [if_pos hcb, Registry.put, if_pos ⟨rfl, hcb⟩]
        obtain ⟨callback', priority', once'⟩ := cb
        cases hcb
        constructor
        · intro heq
          cases heq
          rfl
        · intro heq
          cases heq
          rfl
      · rw [if_neg hcb, Registry.put, if_neg fun h => hcb h.2]
        exact hshows.mem type' cb
    · rw [set_register_of_ne dispatcher htype, Registry.put, if_neg fun h => htype h.1]
      exact hshows.mem type' cb

/-! ## Removing -/

theorem removeEventListener_shows (hshows : dispatcher.Shows registry) (type : Int) (callback : Nat) :
    (dispatcher.removeEventListener type callback).Shows (registry.put type callback none) where
  unique := hshows.unique.removeEventListener type callback
  mem := by
    intro type' cb
    by_cases htype : type' = type
    · subst htype
      by_cases hcb : cb.callback = callback
      · rw [Registry.put, if_pos ⟨rfl, hcb⟩]
        constructor
        · intro hmem
          exact absurd hcb (hshows.unique.ne_of_removed type' callback cb hmem)
        · intro heq
          cases heq
      · rw [Registry.put, if_neg fun h => hcb h.2, ← hshows.mem type' cb, set_removeEventListener_self]
        exact List.mem_eraseP_of_neg (by rw [decide_eq_true_iff]; exact hcb)
    · rw [set_removeEventListener_of_ne dispatcher htype, Registry.put, if_neg fun h => htype h.1]
      exact hshows.mem type' cb

theorem removeEventListener_ordered (hordered : dispatcher.Ordered) (type : Int) (callback : Nat) :
    (dispatcher.removeEventListener type callback).Ordered := by
  intro type'
  by_cases htype : type' = type
  · subst htype
    rw [set_removeEventListener_self]
    exact (hordered type').sublist List.eraseP_sublist
  · rw [set_removeEventListener_of_ne dispatcher htype]
    exact hordered type'

/-! ## Dispatching -/

/-- The loop of `dispatchEvent` erases what was registered by `once`, and finds it where it is. -/
theorem set_foldl_afterCall (type : Int) :
    ∀ (cbList kept : List CallbackType) (dispatcher : EventDispatcher), dispatcher.set type = kept ++ cbList →
      (kept ++ cbList).Pairwise CallbackType.lt →
      (cbList.foldl (fun dispatcher cb => dispatcher.afterCall shape type cb) dispatcher).set type =
        kept ++ cbList.filter fun cb => !cb.once
  | [], kept, dispatcher, hset, _ => hset
  | cb :: cbList, kept, dispatcher, hset, hsorted => by
    rw [List.foldl_cons]
    by_cases honce : cb.once = true
    · obtain ⟨hkept, hrest, hcross⟩ := List.pairwise_append.mp hsorted
      have hafter : (dispatcher.afterCall shape type cb).set type = kept ++ cbList := by
        rw [set_afterCall_self, if_pos honce, hset]
        apply erase_of_split CallbackType.lt_asymm
        · intro x hx
          exact hcross x hx cb (List.mem_cons_self ..)
        · exact (List.pairwise_cons.mp hrest).1
      have hsorted' : (kept ++ cbList).Pairwise CallbackType.lt :=
        hsorted.sublist ((List.sublist_cons_self cb cbList).append_left kept)
      rw [set_foldl_afterCall type cbList kept _ hafter hsorted', List.filter_cons_of_neg (by rw [honce]; decide)]
    · have hafter : (dispatcher.afterCall shape type cb).set type = (kept ++ [cb]) ++ cbList := by
        rw [set_afterCall_self, if_neg honce, hset, List.append_assoc]
        rfl
      have hsorted' : ((kept ++ [cb]) ++ cbList).Pairwise CallbackType.lt := by
        rw [List.append_assoc]
        exact hsorted
      rw [set_foldl_afterCall type cbList (kept ++ [cb]) _ hafter hsorted',
        List.filter_cons_of_pos (by rw [eq_false_of_ne_true honce]; rfl), List.append_assoc]
      rfl

theorem set_foldl_afterCall_of_ne {type type' : Int} (htype : type' ≠ type) :
    ∀ (cbList : List CallbackType) (dispatcher : EventDispatcher),
      (cbList.foldl (fun dispatcher cb => dispatcher.afterCall shape type cb) dispatcher).set type' =
        dispatcher.set type'
  | [], _ => rfl
  | cb :: cbList, dispatcher => by
    rw [List.foldl_cons, set_foldl_afterCall_of_ne htype cbList, set_afterCall_of_ne dispatcher htype]

/-- **A dispatch in order**: what was registered by `once` is gone, all else stays. -/
theorem set_dispatchEvent (hordered : dispatcher.Ordered) (type type' : Int) :
    (dispatcher.dispatchEvent shape type).1.set type' =
      if type' = type then (dispatcher.set type).filter fun cb => !cb.once else dispatcher.set type' := by
  rw [dispatchEvent_eq]
  split
  · rename_i htype
    subst htype
    exact set_foldl_afterCall type' (dispatcher.set type') [] dispatcher rfl (hordered type')
  · rename_i htype
    exact set_foldl_afterCall_of_ne htype (dispatcher.set type) dispatcher

theorem dispatchEvent_shows (hshows : dispatcher.Shows registry) (hordered : dispatcher.Ordered) (type : Int) :
    (dispatcher.dispatchEvent shape type).1.Shows (registry.request (.dispatchEvent type)).1 where
  unique := by
    intro type'
    rw [set_dispatchEvent hordered]
    split
    · exact (hshows.unique type).sublist (List.filter_sublist.map _)
    · exact hshows.unique type'
  mem := by
    intro type' cb
    have hmem := hshows.mem type' cb
    rw [set_dispatchEvent hordered]
    show _ ↔ (if type' = type ∧ (registry type' cb.callback).any (·.2) then none else registry type' cb.callback) = _
    split
    · rename_i htype
      subst htype
      rw [List.mem_filter, hmem]
      constructor
      · rintro ⟨hentry, honce⟩
        rw [hentry, if_neg]
        rintro ⟨-, hany⟩
        have hsome : cb.once = true := hany
        rw [hsome] at honce
        cases honce
      · intro hentry
        split at hentry
        · cases hentry
        · rename_i hnot
          refine ⟨hentry, ?_⟩
          rw [hentry] at hnot
          cases honce : cb.once with
          | false => rfl
          | true => exact absurd ⟨rfl, honce⟩ hnot
    · rename_i htype
      rw [hmem, if_neg fun h => htype h.1]

theorem dispatchEvent_ordered (hordered : dispatcher.Ordered) (type : Int) :
    (dispatcher.dispatchEvent shape type).1.Ordered := by
  intro type'
  rw [set_dispatchEvent hordered]
  split
  · exact (hordered type).sublist List.filter_sublist
  · exact hordered type'

/-- The callbacks of a set in order are those registered, each once, the higher priorities first. -/
theorem dispatchEvent_calledInOrder (hshows : dispatcher.Shows registry)
    (hordered : dispatcher.Ordered) (type : Int) :
    CalledInOrder (some (dispatcher.dispatchEvent shape type).2) (some (registry type)) := by
  rw [dispatchEvent_eq]
  refine ⟨hshows.unique type, ?_, ?_⟩
  · intro callback
    rw [List.mem_map, Option.isSome_iff_exists]
    constructor
    · rintro ⟨cb, hcb, rfl⟩
      exact ⟨_, (hshows.mem type cb).mp hcb⟩
    · rintro ⟨entry, hentry⟩
      exact ⟨⟨callback, entry.1, entry.2⟩, (hshows.mem type _).mpr hentry, rfl⟩
  · rw [List.pairwise_map]
    refine (hordered type).imp_of_mem ?_
    intro cb later hcb hlater hlt entry entry' hentry hentry'
    have hcb' := (hshows.mem type cb).mp hcb
    have hlater' := (hshows.mem type later).mp hlater
    rw [hcb'] at hentry
    rw [hlater'] at hentry'
    cases hentry
    cases hentry'
    exact CallbackType.priority_le hlt

/-! ## Every run of requests -/

theorem request_shows (hshows : dispatcher.Shows registry) (hordered : dispatcher.Ordered) (c : Request)
    (hplace : InPlace registry c) :
    ∃ dispatcher' r, dispatcher.request shape c = some (dispatcher', r) ∧
      (dispatcher'.Shows (registry.request c).1 ∧ dispatcher'.Ordered) ∧
        CalledInOrder r (registry.request c).2 := by
  cases c with
  | op o =>
    refine ⟨_, _, rfl, ?_, trivial⟩
    cases o with
    | once type callback priority =>
      exact ⟨register_shows hshows hordered type callback priority true,
        register_ordered hshows hordered hplace true⟩
    | addEventListener type callback priority =>
      exact ⟨register_shows hshows hordered type callback priority false,
        register_ordered hshows hordered hplace false⟩
    | removeEventListener type callback =>
      exact ⟨removeEventListener_shows hshows type callback, removeEventListener_ordered hordered type callback⟩
  | dispatchEvent type =>
    exact ⟨_, _, rfl, ⟨dispatchEvent_shows hshows hordered type, dispatchEvent_ordered hordered type⟩,
      dispatchEvent_calledInOrder hshows hordered type⟩

theorem shows_new : new.Shows Registry.empty := by
  constructor
  · exact unique_new
  · intro type cb
    constructor
    · intro h
      cases h
    · intro h
      cases h

/-- **Listeners in the order of their priorities.**  As long as no callback is registered again with a
priority that moves it past another one of the type, every run of requests keeps each callback once, as it
was registered last, and every dispatch calls what is registered, the higher priorities first. -/
theorem called_in_order (shape : Nat → Shape) (requests : List Request)
    (hplace : Admissible Registry.request InPlace Registry.empty requests) :
    ∃ dispatcher results, runOps (request shape) new requests = some (dispatcher, results) ∧
      dispatcher.Shows (specRun Registry.request Registry.empty requests).1 ∧
      List.Forall₂ CalledInOrder results (specRun Registry.request Registry.empty requests).2 := by
  obtain ⟨dispatcher, results, hrun, ⟨hshows, -⟩, hcalled⟩ :=
    runOps_refines (R := fun dispatcher registry => dispatcher.Shows registry ∧ dispatcher.Ordered)
      (fun _ _ c h hplace => request_shows h.1 h.2 c hplace) requests new Registry.empty
      ⟨shows_new, fun _ => List.Pairwise.nil⟩ hplace
  exact ⟨dispatcher, results, hrun, hshows, hcalled⟩

/-- A callback becomes more important, and no other one comes in its way. -/
theorem called_in_order_raised :
    ∃ dispatcher results,
      runOps (request fun _ _ _ => 0) new [.op (.addEventListener 0 1 5), .op (.once 0 2 7), .op (.addEventListener 0 2 9),
        .dispatchEvent 0] = some (dispatcher, results) ∧ results.getLast? = some (some [2, 1]) ∧
      dispatcher.Shows (specRun Registry.request Registry.empty [.op (.addEventListener 0 1 5), .op (.once 0 2 7),
        .op (.addEventListener 0 2 9), .dispatchEvent 0]).1 := by
  have hplace : Admissible Registry.request InPlace Registry.empty
      [.op (.addEventListener 0 1 5), .op (.once 0 2 7), .op (.addEventListener 0 2 9), .dispatchEvent 0] := by
    refine ⟨?_, ?_, ?_, trivial, trivial⟩
    · intro old hold
      cases hold
    · intro old hold
      cases hold
    · intro old hold other entry hentry hne
      by_cases hother : other = 1
      · subst hother
        cases hold
        cases hentry
        decide
      · simp [Registry.request, Registry.apply, Registry.put, Registry.empty, hne, hother] at hentry
  obtain ⟨dispatcher, results, hrun, hshows, -⟩ := called_in_order (fun _ _ _ => 0) _ hplace
  cases hrun
  exact ⟨_, _, rfl, rfl, hshows⟩

/-- A callback becomes less important than one behind it: it is called in front of it all the same. -/
theorem called_out_of_order :
    ¬ ∀ (shape : Nat → Shape) (requests : List Request) (dispatcher : EventDispatcher) (results : List (Option (List Nat))),
      runOps (request shape) new requests = some (dispatcher, results) →
        dispatcher.Shows (specRun Registry.request Registry.empty requests).1 ∧
          List.Forall₂ CalledInOrder results (specRun Registry.request Registry.empty requests).2 := by
  intro hall
  have h := hall (fun _ _ _ => 0) [.op (.addEventListener 0 1 1), .op (.addEventListener 0 2 2),
    .op (.addEventListener 0 2 0), .dispatchEvent 0] _ _ rfl
  obtain ⟨-, hresults⟩ := h
  have hdispatch : CalledInOrder (some [2, 1])
      (some ((((Registry.empty.apply (.addEventListener 0 1 1)).apply (.addEventListener 0 2 2)).apply
        (.addEventListener 0 2 0)) 0)) := by
    cases hresults with | cons _ hresults =>
    cases hresults with | cons _ hresults =>
    cases hresults with | cons _ hresults =>
    cases hresults with | cons hlast _ => exact hlast
  obtain ⟨-, -, hpriorities⟩ := hdispatch
  have hle : (1 : Int) ≤ 0 := (List.pairwise_cons.mp hpriorities).1 1 (List.mem_cons_self ..) (0, false)
    (1, false) rfl rfl
  exact absurd hle (by decide)

end EventDispatcher

end Libws.Core
