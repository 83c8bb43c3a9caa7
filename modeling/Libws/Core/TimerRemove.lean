import Libws.Lib.Machine
import Libws.Core.TimerWheel

/-!
# What `remove` stops

* `Quiet` — an item that no update from a given one on invokes, which no step changes
  (`step_quiet`);
* `removed_never_fires` — a `remove` that finds every schedule of its id that may still run
  (`Removable`) stops them for good;
* `removed_one_shot_fires` — a one-shot that waits in `dispatchList` is not found any more.
-/

set_option autoImplicit false

namespace Libws.Core.Timer

open Libws.Machine

/-- No update that starts after `remove id` invokes a schedule of that id. -/
def SilentAfterRemove (t : Timer) (id : Nat) : Prop :=
  ∀ behind t' out, runOps step (t.remove id) behind = some (t', out) →
    ∀ u p c, .invoked u p c ∈ out.flatten → t.updates ≤ u → p < t.next → (t.heap p).id ≠ id

/-- Every schedule of the id is the one that `remove` finds, or has lost its callback, or is
neither dispatched nor to be dispatched any more. -/
def Removable (t : Timer) (id : Nat) : Prop :=
  ∀ p, p < t.next → (t.heap p).id = id →
    t.scheduleList id = some p ∨ (t.heap p).callback = none ∨
      p ∉ t.dispatchList ∧ ((t.heap p).remainTimes = 0 ∨ Absent t p)

/-- The item is invoked by no update from the `u₀`-th on. -/
structure Quiet (item u₀ : Nat) (t : Timer) : Prop where
  known : item < t.next
  status : (t.heap item).callback = none ∨
    item ∉ t.dispatchList ∧ ((t.heap item).remainTimes = 0 ∨ Absent t item) ∧
      ∀ f ∈ t.frames, u₀ ≤ f.1 → item ∉ f.2

/-! ## Functions -/

/-- `insert` leaves the calls of `update` alone, and of a schedule it sets the index. -/
theorem insert_frame (t : Timer) (item : Nat) :
    (t.insert item).frames = t.frames ∧ (t.insert item).updates = t.updates ∧
      (t.insert item).next = t.next ∧
      ∀ p, ((t.insert item).heap p).callback = (t.heap p).callback := by
  have hindexed : ∀ p, ((t.indexed item).heap p).callback = (t.heap p).callback := fun p => by
    unfold indexed setSchedule
    by_cases hp : p = item
    · subst hp
      simp only [Function.update_self]
    · simp only [Function.update_of_ne hp]
  rcases insert_shape t item with heq | ⟨slot, heq⟩ <;> rw [heq] <;> exact ⟨rfl, rfl, rfl, hindexed⟩

/-- `dispatch` does the same to every item of the list. -/
theorem dispatchItem_frame (t : Timer) (item : Nat) :
    (t.dispatchItem item).frames = t.frames ∧ (t.dispatchItem item).updates = t.updates ∧
      (t.dispatchItem item).next = t.next ∧
      ∀ p, ((t.dispatchItem item).heap p).callback = (t.heap p).callback := by
  have hset : ∀ (remainTimes : Int) p,
      (Function.update t.heap item { t.heap item with remainTimes := remainTimes } p).callback =
        (t.heap p).callback := fun remainTimes p => by
    by_cases hp : p = item
    · subst hp
      simp only [Function.update_self]
    · simp only [Function.update_of_ne hp]
  unfold dispatchItem
  simp only
  split
  · split
    · exact insert_frame _ item
    · split
      · obtain ⟨hframes, hupdates, hnext, hcallback⟩ := insert_frame
          (setSchedule { t with dispatchList := item :: t.dispatchList } item
            { t.heap item with remainTimes := (t.heap item).remainTimes - 1 }) item
        exact ⟨hframes, hupdates, hnext, fun p => (hcallback p).trans (hset _ p)⟩
      · exact ⟨rfl, rfl, rfl, hset _⟩
  · exact ⟨rfl, rfl, rfl, fun _ => rfl⟩

theorem foldl_dispatchItem_frame : ∀ (items : List Nat) (t : Timer),
    (items.foldl dispatchItem t).frames = t.frames ∧ (items.foldl dispatchItem t).updates = t.updates ∧
      (items.foldl dispatchItem t).next = t.next ∧
      ∀ p, ((items.foldl dispatchItem t).heap p).callback = (t.heap p).callback
  | [], _ => ⟨rfl, rfl, rfl, fun _ => rfl⟩
  | item :: items, t => by
    obtain ⟨hframes, hupdates, hnext, hcallback⟩ := dispatchItem_frame t item
    obtain ⟨hframes', hupdates', hnext', hcallback'⟩ := foldl_dispatchItem_frame items (t.dispatchItem item)
    exact ⟨hframes'.trans hframes, hupdates'.trans hupdates, hnext'.trans hnext,
      fun p => (hcallback' p).trans (hcallback p)⟩

theorem dispatch_quiet {t : Timer} {item u₀ : Nat} (h : Quiet item u₀ t) :
    Quiet item u₀ { t.dispatch with phase := .tick } := by
  obtain ⟨hframes, -, hnext, hcallback⟩ := foldl_dispatchItem_frame (t.wheel (.near (t.tick &&& NEAR_MASK))) t
  refine ⟨hnext.symm ▸ h.known, ?_⟩
  rcases h.status with hnone | ⟨hnot, hdone | habsent, hlater⟩
  · exact Or.inl ((hcallback item).trans hnone)
  · obtain ⟨hdone', -, xs, hxs, hskipped⟩ := foldl_dispatchItem_skips (t.wheel (.near (t.tick &&& NEAR_MASK))) t hdone
    have hnot' : item ∉ ((t.wheel (.near (t.tick &&& NEAR_MASK))).foldl dispatchItem t).dispatchList := by
      rw [hxs, List.mem_append]
      exact fun hmem => hmem.elim hskipped hnot
    exact Or.inr ⟨hnot', Or.inl hdone', hframes.symm ▸ hlater⟩
  · have hslot : item ∉ t.wheel (.near (t.tick &&& NEAR_MASK)) := List.count_eq_zero.mp (habsent _)
    obtain ⟨xs, hxs, hcount⟩ := foldl_dispatchItem_dispatchList _ t hslot
    refine Or.inr ⟨fun hmem => ?_, Or.inr ?_, hframes.symm ▸ hlater⟩
    · have hmem' : item ∈ xs ++ t.dispatchList := hxs ▸ hmem
      rcases List.mem_append.mp hmem' with hmem | hmem
      · exact List.count_eq_zero.mp hcount hmem
      · exact hnot hmem
    · exact (dispatch_absent habsent).1.toSameLists.absent habsent

theorem addTimeCall_frame (t : Timer) (interval : Int) (callback : Option Nat) (times : Int) :
    (t.addTimeCall interval callback times).1.frames = t.frames ∧
      (t.addTimeCall interval callback times).1.updates = t.updates ∧
      (t.addTimeCall interval callback times).1.dispatchList = t.dispatchList := by
  unfold addTimeCall
  split
  · simp only
    generalize ht' : ({ t.setSchedule t.next ⟨(t.lastID + 1) % 2 ^ 32, 0, times, interval, callback⟩ with
      next := t.next + 1, lastID := (t.lastID + 1) % 2 ^ 32 } : Timer) = t'
    obtain ⟨hframes, hupdates, -, -⟩ := insert_frame t' t.next
    refine ⟨hframes.trans ?_, hupdates.trans ?_, (insert_dispatchList t' t.next).trans ?_⟩ <;> subst ht' <;> rfl
  · exact ⟨rfl, rfl, rfl⟩

/-- `remove` leaves a schedule alone or disables it. -/
theorem remove_heap (t : Timer) (id item : Nat) :
    (t.remove id).heap item = t.heap item ∨
      t.scheduleList id = some item ∧ ((t.remove id).heap item).callback = none := by
  unfold remove
  split
  · exact Or.inl rfl
  · rename_i item' hid
    by_cases hitem : item = item'
    · subst hitem
      exact Or.inr ⟨hid, by simp only [setSchedule, Function.update_self]⟩
    · exact Or.inl (Function.update_of_ne hitem ..)

/-- `remove` disables the schedule that it finds. -/
theorem remove_found {t : Timer} {id item : Nat} (h : t.scheduleList id = some item) :
    ((t.remove id).heap item).callback = none := by
  unfold remove
  simp only [h, setSchedule, Function.update_self]

theorem remove_frame (t : Timer) (id : Nat) :
    (t.remove id).next = t.next ∧ (t.remove id).dispatchList = t.dispatchList ∧
      (t.remove id).wheel = t.wheel ∧ (t.remove id).frames = t.frames ∧ (t.remove id).updates = t.updates := by
  unfold remove
  split <;> exact ⟨rfl, rfl, rfl, rfl, rfl⟩

/-! ## Steps and runs -/

/-- An update goes on to the next item of its list. -/
theorem Quiet.frames_next {t : Timer} {item u₀ u₁ item' : Nat} {callList : List Nat}
    {frames : List (Nat × List Nat)}
    (h : Quiet item u₀ t) (hframes : t.frames = (u₁, item' :: callList) :: frames) :
    Quiet item u₀ { t with frames := (u₁, callList) :: frames } := by
  refine ⟨h.known, h.status.imp_right fun ⟨hnot, hdone, hlater⟩ => ⟨hnot, hdone, fun f hf hu => ?_⟩⟩
  rcases List.mem_cons.mp hf with rfl | hf
  · exact fun hmem => hlater (u₁, item' :: callList)
      (hframes ▸ List.mem_cons_self ..) hu (List.mem_cons_of_mem _ hmem)
  · exact hlater f (hframes ▸ List.mem_cons_of_mem _ hf) hu

/-- **One step** keeps a quiet item quiet, and does not invoke it in one of the updates. -/
theorem step_quiet {t t' : Timer} {item u₀ : Nat} {events : List Event} (h : Quiet item u₀ t) (action : Action)
    (hstep : t.step action = some (t', events)) :
    Quiet item u₀ t' ∧ ∀ u c, .invoked u item c ∈ events → u < u₀ := by
  cases step_cases hstep with
  | addTimeCall interval callback times =>
    have hsame := addTimeCall_untouched (Nat.ne_of_gt h.known) interval callback times
    obtain ⟨hframes, -, hlist⟩ := addTimeCall_frame t interval callback times
    refine ⟨⟨Nat.lt_of_lt_of_le h.known hsame.next, ?_⟩, fun u c hmem => by simp at hmem⟩
    rw [hsame.heap, hframes, hlist]
    exact h.status.imp_right fun ⟨hnot, hdone, hlater⟩ =>
      ⟨hnot, hdone.imp_right hsame.toSameLists.absent, hlater⟩
  | remove id =>
    obtain ⟨hnext, hlist, hwheel, hframes, -⟩ := remove_frame t id
    refine ⟨⟨hnext.symm ▸ h.known, ?_⟩, fun u c hmem => by cases hmem⟩
    rcases remove_heap t id item with hheap | ⟨-, hnone⟩
    · unfold Absent
      rw [hheap, hlist, hwheel, hframes]
      exact h.status
    · exact Or.inl hnone
  | update =>
    refine ⟨⟨h.known, h.status.imp_right fun ⟨hnot, hdone, hlater⟩ => ⟨List.not_mem_nil, hdone, ?_⟩⟩,
      fun u c hmem => by cases hmem⟩
    intro f hf
    rcases List.mem_cons.mp hf with rfl | hf
    · exact fun _ => hnot
    · exact hlater f hf
  | returned u₁ frames hframes =>
    refine ⟨⟨h.known, h.status.imp_right fun ⟨hnot, hdone, hlater⟩ => ⟨hnot, hdone, fun f hf => ?_⟩⟩,
      fun u c hmem => by cases hmem⟩
    exact hlater f (hframes ▸ List.mem_cons_of_mem _ hf)
  | skipped u₁ item' callList frames hframes => exact ⟨h.frames_next hframes, fun u c hmem => by cases hmem⟩
  | invoked u₁ item' callList frames callback hframes hcallback =>
    refine ⟨h.frames_next hframes, fun u c hmem => Nat.lt_of_not_le fun hu => ?_⟩
    obtain ⟨rfl, rfl, rfl⟩ : u = u₁ ∧ item = item' ∧ c = callback := by simpa using hmem
    rcases h.status with hnone | ⟨-, -, hlater⟩
    · rw [hnone] at hcallback
      cases hcallback
    · exact hlater (u, item :: callList) (hframes ▸ List.mem_cons_self ..) hu (List.mem_cons_self ..)
  | dispatch => exact ⟨dispatch_quiet h, fun u c hmem => by simp at hmem⟩
  | tick => exact ⟨⟨h.known, h.status⟩, fun u c hmem => by cases hmem⟩
  | expand =>
    have honly := expand_only t
    refine ⟨⟨by rw [honly]; exact h.known, ?_⟩, fun u c hmem => by cases hmem⟩
    rcases h.status with hnone | ⟨hnot, hdone, hlater⟩
    · exact Or.inl (by rw [honly]; exact hnone)
    · refine Or.inr ⟨by rw [honly]; exact hnot, ?_, by rw [honly]; exact hlater⟩
      exact hdone.imp (fun hdone => by rw [honly]; exact hdone) expand_absent

/-- The updates that run started before the next one. -/
theorem step_started {t t' : Timer} {events : List Event} (h : ∀ f ∈ t.frames, f.1 < t.updates)
    (action : Action) (hstep : t.step action = some (t', events)) : ∀ f ∈ t'.frames, f.1 < t'.updates := by
  have hnext : ∀ {u₁ item : Nat} {callList : List Nat} {frames : List (Nat × List Nat)},
      t.frames = (u₁, item :: callList) :: frames → ∀ f ∈ (u₁, callList) :: frames, f.1 < t.updates := by
    intro u₁ item callList frames hframes f hf
    rcases List.mem_cons.mp hf with rfl | hf
    · exact h (u₁, item :: callList) (hframes ▸ List.mem_cons_self ..)
    · exact h f (hframes ▸ List.mem_cons_of_mem _ hf)
  cases step_cases hstep with
  | addTimeCall interval callback times =>
    obtain ⟨hframes, hupdates, -⟩ := addTimeCall_frame t interval callback times
    rw [hframes, hupdates]
    exact h
  | remove id =>
    obtain ⟨-, -, -, hframes, hupdates⟩ := remove_frame t id
    rw [hframes, hupdates]
    exact h
  | update =>
    intro f hf
    rcases List.mem_cons.mp hf with rfl | hf
    · exact Nat.lt_succ_self _
    · exact Nat.lt_succ_of_lt (h f hf)
  | returned u₁ frames hframes => exact fun f hf => h f (hframes ▸ List.mem_cons_of_mem _ hf)
  | skipped u₁ item callList frames hframes => exact hnext hframes
  | invoked u₁ item callList frames callback hframes => exact hnext hframes
  | dispatch =>
    obtain ⟨hframes, hupdates, -, -⟩ := foldl_dispatchItem_frame (t.wheel (.near (t.tick &&& NEAR_MASK))) t
    exact fun f hf => hupdates.symm ▸ h f (hframes ▸ hf)
  | tick => exact h
  | expand =>
    rw [expand_only t]
    exact h

/-- **What `remove` stops.**  In every run, a `remove` of an id in a state in which it is removable
stops every schedule of that id: no update that starts afterwards invokes one. -/
theorem removed_never_fires (before : List Action) (t : Timer) (out₁ : List (List Event)) (id : Nat)
    (hbefore : runOps step new before = some (t, out₁)) (h : Removable t id) : SilentAfterRemove t id := by
  intro behind t' out hrun u p c hinvoked hu hp hid
  have hstarted : ∀ f ∈ t.frames, f.1 < t.updates :=
    runOps_inv (fun s _ _ => ∀ f ∈ s.frames, f.1 < s.updates)
      (fun s _ _ i s' r hs hstep => step_started hs i hstep) (fun f hf => by cases hf) hbefore
  have hquiet : Quiet p t.updates (t.remove id) := by
    obtain ⟨hnext, hlist, hwheel, hframes, -⟩ := remove_frame t id
    refine ⟨hnext.symm ▸ hp, ?_⟩
    rcases remove_heap t id p with hheap | ⟨-, hnone⟩
    · rcases h p hp hid with hfound | hnone | ⟨hnot, hdone⟩
      · exact Or.inl (remove_found hfound)
      · exact Or.inl (hheap ▸ hnone)
      · unfold Absent
        rw [hheap, hlist, hwheel, hframes]
        exact Or.inr ⟨hnot, hdone, fun f hf hle => absurd (hstarted f hf) (Nat.not_lt.mpr hle)⟩
    · exact Or.inl hnone
  obtain ⟨-, hsilent⟩ := runOps_inv
    (fun s _ rs => Quiet p t.updates s ∧ ∀ u c, .invoked u p c ∈ rs.flatten → u < t.updates)
    (fun s _ rs i s' r ⟨hs, hrs⟩ hstep => by
      obtain ⟨hs', hr⟩ := step_quiet hs i hstep
      refine ⟨hs', fun u c hmem => ?_⟩
      rw [List.flatten_append, List.flatten_singleton] at hmem
      exact (List.mem_append.mp hmem).elim (hrs u c) (hr u c))
    ⟨hquiet, fun u c hmem => by cases hmem⟩ hrun
  exact absurd (hsilent u c hinvoked) (Nat.not_lt.mpr hu)

/-- A one-shot that waits in its list of the wheel is removable. -/
theorem removed_never_fires_in_time :
    ∃ t out₁, runOps step new [.addTimeCall 10 (some 7) 1, .worker, .worker] = some (t, out₁) ∧
      Removable t 1 ∧ SilentAfterRemove t 1 := by
  obtain ⟨⟨t, out₁⟩, hbefore, hnext, hfound⟩ :
      ∃ x, runOps step new [.addTimeCall 10 (some 7) 1, .worker, .worker] = some x ∧
        x.1.next = 1 ∧ x.1.scheduleList 1 = some 0 := ⟨_, rfl, rfl, rfl⟩
  have hremovable : Removable t 1 := by
    intro p hp _
    obtain rfl : p = 0 := Nat.lt_one_iff.mp (hnext ▸ hp)
    exact Or.inl hfound
  exact ⟨t, out₁, hbefore, hremovable, removed_never_fires _ t out₁ 1 hbefore hremovable⟩

/-- **A one-shot that waits in `dispatchList` fires after it was removed**: its dispatch has taken
it out of `scheduleList`, so that `remove` does not find it. -/
theorem removed_one_shot_fires :
    ¬ ∀ (before : List Action) (t : Timer) (out₁ : List (List Event)) (id : Nat),
      runOps step new before = some (t, out₁) → .returned id ∈ out₁.flatten → SilentAfterRemove t id := by
  intro h
  obtain ⟨⟨t, out₁⟩, hbefore, hreturned, hupdates, hnext, hid, hrest⟩ :
      ∃ x, runOps step new [.addTimeCall 10 (some 7) 1, .worker, .worker, .worker, .worker] = some x ∧
        .returned 1 ∈ x.2.flatten ∧ x.1.updates = 0 ∧ x.1.next = 1 ∧ (x.1.heap 0).id = 1 ∧
        ∃ y, runOps step (x.1.remove 1) [.update, .updateNext] = some y ∧ .invoked 0 0 7 ∈ y.2.flatten :=
    ⟨_, rfl, by decide, rfl, rfl, rfl, _, rfl, by decide⟩
  obtain ⟨⟨t', out⟩, hbehind, hinvoked⟩ := hrest
  exact h _ t out₁ 1 hbefore hreturned _ t' out hbehind 0 0 7 hinvoked (Nat.le_of_eq hupdates)
    (by rw [hnext]; decide) hid

end Libws.Core.Timer
