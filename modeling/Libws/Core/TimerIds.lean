import Mathlib.Data.List.Nodup
import Libws.Core.TimerPlaced

/-!
# Ids and schedules

An id is the number of the accepted call, modulo `2 ^ 32`; `scheduleList` leads from it to the schedule.

* `Live` — the schedules that `scheduleList` knows, and those that some round may still take;
* `Keyed` — every schedule that a round may take is found under its id, and what is found has that id;
  one step keeps it (`step_keyed`) if an accepted call finds its id free (`KeyFree`);
* `Counted` — and no id is above the counter, so that an id is free exactly as long as the counter does not wrap;
* `ids_unique_iff` — every run.
-/

set_option autoImplicit false

namespace Libws.Core.Timer

open Libws.Machine

/-- `scheduleList` leads from the id of the schedule to the schedule. -/
def Registered (t : Timer) (p : Nat) : Prop := t.scheduleList (t.heap p).id = some p

/-- The schedule is in `scheduleList`, or in a list of the wheel with rounds left. -/
def Live (t : Timer) (p : Nat) : Prop :=
  (∃ id, t.scheduleList id = some p) ∨ (t.heap p).remainTimes ≠ 0 ∧ ¬ Absent t p

/-- The item is in the wheel at most once. -/
def Once (t : Timer) (p : Nat) : Prop := Absent t p ∨ ∃ slot, At t p slot

structure Keyed (t : Timer) : Prop where
  fresh : ∀ p, t.next ≤ p → Absent t p
  once : ∀ p, Once t p
  waiting : ∀ p, (t.heap p).remainTimes ≠ 0 → ¬ Absent t p → Registered t p
  found : ∀ id p, t.scheduleList id = some p → (t.heap p).id = id ∧ p < t.next

theorem new_keyed : Keyed new :=
  ⟨fun _ _ _ => rfl, fun _ => Or.inl fun _ => rfl, fun _ _ h => absurd (fun _ => rfl) h, fun _ _ h => by cases h⟩

/-! ## What keeps ids and keys -/

/-- Nothing that has to do with ids changed, but the keys may be fewer. -/
structure SameIds (t t' : Timer) : Prop where
  id : ∀ p, (t'.heap p).id = (t.heap p).id
  next : t'.next = t.next
  lastID : t'.lastID = t.lastID
  keys : ∀ id p, t'.scheduleList id = some p → t.scheduleList id = some p

theorem SameIds.refl (t : Timer) : SameIds t t := ⟨fun _ => rfl, rfl, rfl, fun _ _ h => h⟩

theorem SameIds.trans {t t' t'' : Timer} (h : SameIds t t') (h' : SameIds t' t'') : SameIds t t'' :=
  ⟨fun p => (h'.id p).trans (h.id p), h'.next.trans h.next, h'.lastID.trans h.lastID,
    fun id p hp => h.keys id p (h'.keys id p hp)⟩

theorem setSchedule_ids {t : Timer} {item : Nat} {schedule : Schedule} (hid : schedule.id = (t.heap item).id) :
    SameIds t (t.setSchedule item schedule) := by
  refine ⟨fun p => ?_, rfl, rfl, fun _ _ h => h⟩
  unfold setSchedule
  by_cases hp : p = item
  · subst hp
    simp only [Function.update_self, hid]
  · simp only [Function.update_of_ne hp]

theorem insert_ids (t : Timer) (item : Nat) :
    SameIds t (t.insert item) ∧ (t.insert item).scheduleList = t.scheduleList := by
  have hindexed : SameIds t (t.indexed item) := setSchedule_ids rfl
  rcases insert_shape t item with heq | ⟨slot, heq⟩ <;> rw [heq]
  · exact ⟨hindexed, rfl⟩
  · exact ⟨hindexed.trans ⟨fun _ => rfl, rfl, rfl, fun _ _ h => h⟩, rfl⟩

theorem erased_key {keys : Nat → Option Nat} {key id p : Nat} (h : Function.update keys key none id = some p) :
    id ≠ key ∧ keys id = some p := by
  by_cases hid : id = key
  · subst hid
    rw [Function.update_self] at h
    cases h
  · exact ⟨hid, by rwa [Function.update_of_ne hid] at h⟩

theorem remove_ids (t : Timer) (id : Nat) : SameIds t (t.remove id) := by
  unfold remove
  split
  · exact SameIds.refl t
  · rename_i item hitem
    have hset : SameIds t (t.setSchedule item { t.heap item with remainTimes := 0, callback := none }) :=
      setSchedule_ids rfl
    exact hset.trans ⟨fun _ => rfl, rfl, rfl, fun _ _ hp => (erased_key hp).2⟩

/-- What `dispatch` does to one item: it erases the key of the item, or it keeps all keys. -/
theorem dispatchItem_ids (t : Timer) (item : Nat) :
    SameIds t (t.dispatchItem item) ∧
      ((t.dispatchItem item).scheduleList = t.scheduleList ∨
        (t.heap item).remainTimes ≠ 0 ∧ (t.dispatchItem item).wheel = t.wheel ∧
          (t.dispatchItem item).scheduleList = Function.update t.scheduleList (t.heap item).id none) := by
  unfold dispatchItem
  simp only
  split
  · rename_i hremains
    have hlist : SameIds t { t with dispatchList := item :: t.dispatchList } :=
      ⟨fun _ => rfl, rfl, rfl, fun _ _ h => h⟩
    split
    · obtain ⟨hids, hkeys⟩ := insert_ids { t with dispatchList := item :: t.dispatchList } item
      exact ⟨hlist.trans hids, Or.inl hkeys⟩
    · generalize hset : setSchedule { t with dispatchList := item :: t.dispatchList } item
          { t.heap item with remainTimes := (t.heap item).remainTimes - 1 } = t₁
      have hids₁ : SameIds t t₁ := by
        subst hset
        exact hlist.trans (setSchedule_ids rfl)
      have hkeys₁ : t₁.scheduleList = t.scheduleList ∧ t₁.wheel = t.wheel := by
        subst hset
        exact ⟨rfl, rfl⟩
      split
      · obtain ⟨hids, hkeys⟩ := insert_ids t₁ item
        exact ⟨hids₁.trans hids, Or.inl (hkeys.trans hkeys₁.1)⟩
      · exact ⟨hids₁.trans ⟨fun _ => rfl, rfl, rfl, fun _ _ hp => (erased_key hp).2⟩,
          Or.inr ⟨hremains, hkeys₁.2, by rw [hkeys₁.1]⟩⟩
  · exact ⟨SameIds.refl t, Or.inl rfl⟩

theorem foldl_dispatchItem_ids : ∀ (items : List Nat) (t : Timer), SameIds t (items.foldl dispatchItem t)
  | [], t => SameIds.refl t
  | item :: items, t => (dispatchItem_ids t item).1.trans (foldl_dispatchItem_ids items (t.dispatchItem item))

theorem dispatch_ids (t : Timer) : SameIds t t.dispatch :=
  (foldl_dispatchItem_ids (t.wheel (.near (t.tick &&& NEAR_MASK))) t).trans ⟨fun _ => rfl, rfl, rfl, fun _ _ h => h⟩

/-- The key of one item is not that of another one that is registered too. -/
theorem dispatchItem_registered {t : Timer} {item p : Nat} (hne : p ≠ item)
    (hitem : (t.heap item).remainTimes ≠ 0 → Registered t item) (h : Registered t p) :
    Registered (t.dispatchItem item) p := by
  obtain ⟨hids, hkeys | ⟨hremains, -, hkeys⟩⟩ := dispatchItem_ids t item
  · unfold Registered
    rw [hids.id, hkeys]
    exact h
  · have hother : (t.heap p).id ≠ (t.heap item).id := fun heq => by
      have hfound := hitem hremains
      unfold Registered at h hfound
      rw [← heq, h] at hfound
      exact hne (Option.some.inj hfound)
    unfold Registered
    rw [hids.id, hkeys, Function.update_of_ne hother]
    exact h

/-- The loop of `dispatch`: an item stays registered, unless the loop takes it and does not insert it again. -/
theorem foldl_dispatchItem_registered {p : Nat} : ∀ (items : List Nat) (t : Timer), items.Nodup →
    (∀ item ∈ items, (t.heap item).remainTimes ≠ 0 → Registered t item) → Registered t p →
    Registered (items.foldl dispatchItem t) p ∨
      p ∈ items ∧ ∀ s, ((items.foldl dispatchItem t).wheel s).count p = (t.wheel s).count p
  | [], _, _, _, h => Or.inl h
  | item :: items, t, hnodup, hall, h => by
    obtain ⟨hnot, hnodup'⟩ := List.nodup_cons.mp hnodup
    have hitem := hall item (List.mem_cons_self ..)
    have hall' : ∀ q ∈ items, ((t.dispatchItem item).heap q).remainTimes ≠ 0 →
      Registered (t.dispatchItem item) q := by
      intro q hq hremains
      have hne : item ≠ q := fun heq => hnot (heq ▸ hq)
      rw [(dispatchItem_untouched hne t).heap] at hremains
      exact dispatchItem_registered (Ne.symm hne) hitem (hall q (List.mem_cons_of_mem _ hq) hremains)
    by_cases hp : p = item
    · subst hp
      obtain ⟨hids, hkeys | ⟨-, hwheel, -⟩⟩ := dispatchItem_ids t p
      · have h' : Registered (t.dispatchItem p) p := by
          unfold Registered
          rw [hids.id, hkeys]
          exact h
        exact (foldl_dispatchItem_registered items _ hnodup' hall' h').imp_right fun hlater =>
          absurd hlater.1 hnot
      · refine Or.inr ⟨List.mem_cons_self .., fun s => ?_⟩
        rw [List.foldl_cons, (foldl_dispatchItem_untouched items _ hnot).wheel, hwheel]
    · refine (foldl_dispatchItem_registered items _ hnodup' hall' (dispatchItem_registered hp hitem h)).imp_right ?_
      rintro ⟨hmem, hcount⟩
      refine ⟨List.mem_cons_of_mem _ hmem, fun s => ?_⟩
      rw [List.foldl_cons, hcount, (dispatchItem_untouched (Ne.symm hp) t).wheel]

/-! ## At most once in the wheel -/

theorem insert_count (t : Timer) (item : Nat) :
    (∀ s, ((t.insert item).wheel s).count item = (t.wheel s).count item) ∨
    ∃ slot, ∀ s, ((t.insert item).wheel s).count item = (t.wheel s).count item + if s = slot then 1 else 0 := by
  rcases insert_shape t item with heq | ⟨slot, heq⟩ <;> rw [heq]
  · exact Or.inl fun _ => rfl
  · refine Or.inr ⟨slot, fun s => ?_⟩
    rw [pushFront_count]
    simp only [and_true]
    rfl

theorem dispatchItem_count (t : Timer) (item : Nat) :
    (∀ s, ((t.dispatchItem item).wheel s).count item = (t.wheel s).count item) ∨
      ∃ slot, ∀ s, ((t.dispatchItem item).wheel s).count item = (t.wheel s).count item + if s =
        slot then 1 else 0 := by
  unfold dispatchItem
  simp only
  split
  · split
    · exact insert_count _ item
    · split
      · exact insert_count _ item
      · exact Or.inl fun _ => rfl
  · exact Or.inl fun _ => rfl

theorem dispatch_once {t : Timer} {p : Nat} (h : Once t p) : Once t.dispatch p := by
  rcases h with habsent | ⟨slot, hat⟩
  · exact Or.inl ((dispatch_absent habsent).1.toSameLists.absent habsent)
  by_cases hslot : slot = .near (t.ticks % 256)
  · subst hslot
    obtain ⟨t₁, t₂, h₁, h₂, hdispatch, -⟩ := dispatch_split (hat _ |>.trans (if_pos rfl))
    -- what is left is what the loop has inserted again, in another list
    have hcount : ∀ s, (t.dispatch.wheel s).count p =
        if s = .near (t.ticks % 256) then 0 else ((t₁.dispatchItem p).wheel s).count p := fun s => by
      rw [hdispatch, clearSlot_count, h₂.wheel]
    rcases dispatchItem_count t₁ p with hsame | ⟨slot, hmore⟩
    · refine Or.inl fun s => ?_
      rw [hcount, hsame, h₁.wheel, hat]
      split <;> rfl
    · by_cases hcurrent : slot = .near (t.ticks % 256)
      · refine Or.inl fun s => ?_
        rw [hcount, hmore, h₁.wheel, hat, hcurrent]
        split <;> rfl
      · refine Or.inr ⟨slot, fun s => ?_⟩
        rw [hcount, hmore, h₁.wheel, hat]
        split
        · rename_i hs
          rw [if_neg (fun heq => hcurrent (heq.symm.trans hs))]
        · rw [Nat.zero_add]
  · exact Or.inr ⟨slot, (dispatch_elsewhere hat hslot).1⟩

theorem expand_once {t : Timer} {p : Nat} (h : Once t p) : Once t.expand p := by
  rcases h with habsent | ⟨slot, hat⟩
  · exact Or.inl (expand_absent habsent)
  · right
    unfold expand
    rw [tick_mask]
    split
    · rename_i hzero
      have hdvd : span 0 ∣ t.ticks := by rw [span_zero]; exact Nat.dvd_of_mod_eq_zero hzero
      obtain ⟨slot', hat', -⟩ := carry_at 4 0 t slot rfl hdvd hat
      rw [show t.tick >>> 8 = t.tick / span 0 from Nat.shiftRight_eq_div_pow _ _]
      exact ⟨slot', hat'⟩
    · exact ⟨slot, hat⟩

theorem SameLists.once {t t' : Timer} {p : Nat} (h : SameLists p t t') (ho : Once t p) : Once t' p :=
  ho.imp h.absent fun ⟨slot, hat⟩ => ⟨slot, fun s => (h.wheel s).trans (hat s)⟩

/-! ## Steps -/

/-- The id of the next accepted call. -/
def nextID (t : Timer) : Nat := (t.lastID + 1) % 2 ^ 32

/-- An accepted call finds its id free: it is not zero, and not in `scheduleList`. -/
def KeyFree (t : Timer) : Action → Prop
  | .addTimeCall interval callback times =>
    Accepted interval callback times → t.nextID ≠ 0 ∧ t.scheduleList t.nextID = none
  | _ => True

/-- An accepted call returns an id that is not zero, and that no live schedule has. -/
def UniqueId (t : Timer) : Action → Prop
  | .addTimeCall interval callback times =>
    Accepted interval callback times →
      (t.addTimeCall interval callback times).2 ≠ 0 ∧
        ∀ p, Live t p → (t.heap p).id ≠ (t.addTimeCall interval callback times).2
  | _ => True

theorem Keyed.live {t : Timer} (h : Keyed t) {p : Nat} (hlive : Live t p) : Registered t p := by
  rcases hlive with ⟨id, hid⟩ | ⟨hremains, hthere⟩
  · unfold Registered
    rw [(h.found id p hid).1, hid]
  · exact h.waiting p hremains hthere

/-- As long as the keys are right, an id is new exactly when its key is free. -/
theorem Keyed.unique_iff {t : Timer} (h : Keyed t) (action : Action) : UniqueId t action ↔ KeyFree t action := by
  cases action with
  | addTimeCall interval callback times =>
    refine forall_congr' fun haccepted => ?_
    rw [addTimeCall_accepted haccepted]
    refine and_congr_right fun _ => ⟨fun hother => ?_, fun hfree p hlive heq => ?_⟩
    · cases hkey : t.scheduleList t.nextID with
      | none => rfl
      | some p => exact absurd (h.found _ p hkey).1 (hother p (Or.inl ⟨_, hkey⟩))
    · have hregistered := h.live hlive
      unfold Registered at hregistered
      rw [heq] at hregistered
      exact Option.some_ne_none p (hregistered.symm.trans hfree)
  | remove id | update | updateNext | worker => exact Iff.rfl

theorem addTimeCall_keyed {t : Timer} {interval times : Int} {callback : Option Nat} (h : Keyed t)
    (haccepted : Accepted interval callback times) (hfree : t.scheduleList t.nextID = none) :
    Keyed (t.addTimeCall interval callback times).1 := by
  have huntouched := fun p (hne : t.next ≠ p) => addTimeCall_untouched hne interval callback times
  rw [addTimeCall_accepted haccepted] at huntouched ⊢
  obtain ⟨hids, hkeys⟩ := insert_ids (t.allocated interval callback times) t.next
  have hnext : ((t.allocated interval callback times).insert t.next).next = t.next + 1 := hids.next
  have hnew : (((t.allocated interval callback times).insert t.next).heap t.next).id = t.nextID := by
    rw [hids.id, allocated_heap]
    rfl
  have hlist : ∀ id p, Function.update ((t.allocated interval callback times).insert t.next).scheduleList
      t.nextID (some t.next) id = some p ↔ id = t.nextID ∧ p = t.next ∨ id ≠ t.nextID ∧
        t.scheduleList id = some p := by
    intro id p
    rw [hkeys]
    by_cases hid : id = t.nextID
    · subst hid
      rw [Function.update_self, Option.some.injEq]
      simp [eq_comm]
    · rw [Function.update_of_ne hid]
      simp only [hid, false_and, ne_eq, not_false_eq_true, true_and, false_or]
      rfl
  refine ⟨fun p hp => ?_, fun p => ?_, fun p hremains hthere => ?_, fun id p hp => ?_⟩
  · have hne : t.next + 1 ≤ p := by rw [← hnext]; exact hp
    exact (huntouched p (Nat.ne_of_lt hne)).absent (h.fresh p (Nat.le_of_lt hne))
  · by_cases hp : t.next = p
    · subst hp
      have habsent : ∀ s, (((t.allocated interval callback times).wheel s).count t.next) = 0 :=
        h.fresh t.next (Nat.le_refl _)
      rcases insert_count (t.allocated interval callback times) t.next with hsame | ⟨slot, hmore⟩
      · exact Or.inl fun s => (hsame s).trans (habsent s)
      · exact Or.inr ⟨slot, fun s => (hmore s).trans (by rw [habsent, Nat.zero_add])⟩
    · exact (huntouched p hp).once (h.once p)
  · by_cases hp : t.next = p
    · subst hp
      exact (hlist _ _).mpr (Or.inl ⟨hnew, rfl⟩)
    · have hother := huntouched p hp
      have hregistered := h.waiting p (by rw [← hother.heap]; exact hremains) fun habsent =>
        hthere (hother.absent habsent)
      refine (hlist _ _).mpr (Or.inr ⟨fun hid => ?_, ?_⟩)
      · unfold Registered at hregistered
        rw [← hother.heap, hid, hfree] at hregistered
        cases hregistered
      · rw [hother.heap]
        exact hregistered
  · rcases (hlist id p).mp hp with ⟨rfl, rfl⟩ | ⟨hid, hold⟩
    · exact ⟨hnew, by rw [hnext]; exact Nat.lt_succ_self _⟩
    · obtain ⟨hkey, hlt⟩ := h.found id p hold
      exact ⟨(congrArg Schedule.id (huntouched p (Nat.ne_of_gt hlt)).heap).trans hkey,
        by rw [hnext]; exact Nat.lt_succ_of_lt hlt⟩

theorem remove_keyed {t : Timer} (h : Keyed t) (id : Nat) : Keyed (t.remove id) := by
  have hids := remove_ids t id
  unfold remove at hids ⊢
  split
  · exact h
  · rename_i item hitem
    rw [hitem] at hids
    refine ⟨h.fresh, h.once, fun p hremains hthere => ?_, fun id' p hp => ?_⟩
    · have hne : p ≠ item := fun heq => hremains (by subst heq; simp only [setSchedule, Function.update_self])
      have hheap : (Function.update t.heap item { t.heap item with remainTimes := 0, callback := none }) p =
        t.heap p :=
        Function.update_of_ne hne ..
      have hregistered := h.waiting p (by rw [← hheap]; exact hremains) hthere
      have hother : (t.heap p).id ≠ id := fun heq => by
        unfold Registered at hregistered
        rw [heq, hitem] at hregistered
        exact hne (Option.some.inj hregistered).symm
      show Function.update t.scheduleList id none
        ((Function.update t.heap item { t.heap item with remainTimes := 0, callback := none }) p).id = some p
      rw [hheap, Function.update_of_ne hother]
      exact hregistered
    · obtain ⟨hkey, hlt⟩ := h.found id' p (hids.keys id' p hp)
      exact ⟨(hids.id p).trans hkey, hlt⟩

theorem dispatch_keyed {t : Timer} (h : Keyed t) : Keyed { t.dispatch with phase := .tick } := by
  have hids := dispatch_ids t
  have hnodup : (t.wheel (.near (t.tick &&& NEAR_MASK))).Nodup := List.nodup_iff_count_le_one.mpr fun p => by
    rcases h.once p with habsent | ⟨slot, hat⟩
    · rw [habsent]
      exact Nat.zero_le _
    · rw [hat]
      split <;> omega
  have hall : ∀ item ∈ t.wheel (.near (t.tick &&& NEAR_MASK)), (t.heap item).remainTimes ≠ 0 → Registered t item :=
    fun item hmem hremains => h.waiting item hremains fun habsent => List.count_eq_zero.mp (habsent _) hmem
  refine ⟨fun p hp => ?_, fun p => dispatch_once (h.once p), fun p hremains hthere => ?_, fun id p hp => ?_⟩
  · have habsent := h.fresh p (hids.next ▸ hp)
    exact (dispatch_absent habsent).1.toSameLists.absent habsent
  · rcases h.once p with habsent | ⟨slot, hat⟩
    · exact absurd ((dispatch_absent habsent).1.toSameLists.absent habsent) hthere
    have hthere' : ¬ Absent t p := fun habsent => hthere ((dispatch_absent habsent).1.toSameLists.absent habsent)
    have hremains' : (t.heap p).remainTimes ≠ 0 := fun hdone => by
      obtain ⟨hdone', -⟩ := foldl_dispatchItem_skips (t.wheel (.near (t.tick &&& NEAR_MASK))) t hdone
      exact hremains hdone'
    rcases foldl_dispatchItem_registered _ t hnodup hall (h.waiting p hremains' hthere') with hkept | ⟨hmem, hcount⟩
    · exact hkept
    · -- the item was in the list alone, which is cleared
      refine absurd (fun s => ?_) hthere
      show (t.dispatch.wheel s).count p = 0
      unfold dispatch
      rw [clearSlot_count, hcount, hat]
      have hcurrent : slot = .near (t.tick &&& NEAR_MASK) := Decidable.byContradiction fun hne =>
        List.count_eq_zero.mp ((hat _).trans (if_neg (Ne.symm hne))) hmem
      rw [hcurrent]
      split <;> rfl
  · obtain ⟨hkey, hlt⟩ := h.found id p (hids.keys id p hp)
    exact ⟨(hids.id p).trans hkey, Nat.lt_of_lt_of_eq hlt hids.next.symm⟩

/-- **One step** keeps the keys right, if an accepted call finds its id free. -/
theorem step_keyed {t t' : Timer} {events : List Event} (h : Keyed t) (action : Action) (hfree : KeyFree t action)
    (hstep : t.step action = some (t', events)) : Keyed t' := by
  cases step_cases hstep with
  | addTimeCall interval callback times =>
    by_cases haccepted : Accepted interval callback times
    · exact addTimeCall_keyed h haccepted (hfree haccepted).2
    · rw [addTimeCall_rejected haccepted]
      exact h
  | remove id => exact remove_keyed h id
  | update | returned | skipped | invoked | tick => exact ⟨h.fresh, h.once, h.waiting, h.found⟩
  | dispatch => exact dispatch_keyed h
  | expand =>
    have honly := expand_only t
    refine ⟨fun p hp => expand_absent (h.fresh p ?_), fun p => expand_once (h.once p), fun p hremains hthere => ?_,
      fun id p hp => ?_⟩
    · rw [honly] at hp
      exact hp
    · have hregistered := h.waiting p (by rw [honly] at hremains; exact hremains)
        fun habsent => hthere (expand_absent habsent)
      unfold Registered
      rw [honly]
      exact hregistered
    · rw [honly] at hp ⊢
      exact h.found id p hp

/-! ## The counter -/

/-- The call is an accepted one, and takes the next id. -/
def takesId : Action → Bool
  | .addTimeCall interval callback times => Accepted interval callback times
  | _ => false

/-- No id is above the counter. -/
structure Counted (t : Timer) : Prop where
  keyed : Keyed t
  below : ∀ id p, t.scheduleList id = some p → id ≤ t.lastID
  lastID_lt : t.lastID < 2 ^ 32

theorem new_counted : Counted new := ⟨new_keyed, fun _ _ h => (by cases h), by decide⟩

/-- An id is free as long as the counter does not wrap. -/
theorem Counted.keyFree_iff {t : Timer} (h : Counted t) (action : Action) :
    KeyFree t action ↔ (takesId action = true → t.lastID + 1 < 2 ^ 32) := by
  cases action with
  | addTimeCall interval callback times =>
    have htakes : takesId (.addTimeCall interval callback times) = true ↔ Accepted interval callback times :=
      decide_eq_true_iff
    rw [htakes, KeyFree]
    refine forall_congr' fun _ => ?_
    have hlt := h.lastID_lt
    unfold nextID
    constructor
    · rintro ⟨hne, -⟩
      omega
    · intro hroom
      have hnext : (t.lastID + 1) % 2 ^ 32 = t.lastID + 1 := Nat.mod_eq_of_lt hroom
      rw [hnext]
      refine ⟨Nat.succ_ne_zero _, ?_⟩
      cases hkey : t.scheduleList (t.lastID + 1) with
      | none => rfl
      | some p => exact absurd (h.below _ p hkey) (by omega)
  | remove id | update | updateNext | worker => exact ⟨fun _ htakes => (by cases htakes), fun _ => trivial⟩

/-- **One step** moves the counter by one if it takes an id, and else leaves it. -/
theorem step_counted {t t' : Timer} {events : List Event} (h : Counted t) (action : Action)
    (hroom : takesId action = true → t.lastID + 1 < 2 ^ 32) (hstep : t.step action = some (t', events)) :
    Counted t' ∧ t'.lastID = t.lastID + if takesId action then 1 else 0 := by
  have hkeyed := step_keyed h.keyed action ((h.keyFree_iff action).mpr hroom) hstep
  have hsame : SameIds t t' → takesId action = false → Counted t' ∧
    t'.lastID = t.lastID + if takesId action then 1 else 0 := by
    intro hids htakes
    rw [htakes]
    refine ⟨⟨hkeyed, fun id p hp => ?_, hids.lastID ▸ h.lastID_lt⟩, hids.lastID⟩
    rw [hids.lastID]
    exact h.below id p (hids.keys id p hp)
  cases step_cases hstep with
  | addTimeCall interval callback times =>
    by_cases haccepted : Accepted interval callback times
    · have htakes : takesId (.addTimeCall interval callback times) = true := decide_eq_true haccepted
      have hlt := hroom htakes
      rw [addTimeCall_accepted haccepted] at hkeyed ⊢
      obtain ⟨hids, hkeys⟩ := insert_ids (t.allocated interval callback times) t.next
      have hlast : ((t.allocated interval callback times).insert t.next).lastID = t.lastID + 1 :=
        hids.lastID.trans (Nat.mod_eq_of_lt hlt)
      rw [if_pos htakes]
      refine ⟨⟨hkeyed, fun id p hp => ?_, hlast ▸ hlt⟩, hlast⟩
      show id ≤ ((t.allocated interval callback times).insert t.next).lastID
      rw [hlast]
      by_cases hid : id = (t.lastID + 1) % 2 ^ 32
      · rw [hid]
        exact Nat.mod_le _ _
      · simp only [Function.update_of_ne hid, hkeys] at hp
        exact Nat.le_succ_of_le (h.below id p hp)
    · rw [addTimeCall_rejected haccepted] at hkeyed hsame ⊢
      exact hsame (SameIds.refl t) (decide_eq_false haccepted)
  | remove id => exact hsame (remove_ids t id) rfl
  | update | returned | skipped | invoked | tick => exact hsame ⟨fun _ => rfl, rfl, rfl, fun _ _ hp => hp⟩ rfl
  | dispatch =>
    have hids := dispatch_ids t
    exact hsame ⟨hids.id, hids.next, hids.lastID, hids.keys⟩ rfl
  | expand =>
    have honly := expand_only t
    refine hsame ⟨fun p => ?_, ?_, ?_, fun id p hp => ?_⟩ rfl
    · show (t.expand.heap p).id = _
      rw [honly]
    · show t.expand.next = _
      rw [honly]
    · show t.expand.lastID = _
      rw [honly]
    · rw [honly] at hp
      exact hp

/-! ## Runs -/

/-- The ids that the accepted calls returned, in the order of the calls. -/
def returnedIds (events : List Event) : List Nat :=
  events.filterMap fun
    | .returned id => if id = 0 then none else some id
    | _ => none

/-- The schedules have the ids that were returned for them. -/
structure Numbered (t : Timer) (ids : List Nat) : Prop where
  length : ids.length = t.next
  id : ∀ p, p < t.next → ids[p]? = some (t.heap p).id

/-- The id that was returned for a live schedule leads to it, and an id leads to no other schedule. -/
structure Identified (t : Timer) (ids : List Nat) : Prop where
  live : ∀ p, Live t p → ∃ id, ids[p]? = some id ∧ t.scheduleList id = some p
  found : ∀ id p, t.scheduleList id = some p → ids[p]? = some id

theorem Numbered.same {t t' : Timer} {ids : List Nat} (h : Numbered t ids) (hnext : t'.next = t.next)
    (hid : ∀ p, (t'.heap p).id = (t.heap p).id) : Numbered t' ids :=
  ⟨h.length.trans hnext.symm, fun p hp => by rw [hid]; exact h.id p (hnext ▸ hp)⟩

theorem step_numbered {t t' : Timer} {ids : List Nat} {events : List Event} (h : Numbered t ids) (action : Action)
    (hfree : KeyFree t action) (hstep : t.step action = some (t', events)) :
    Numbered t' (ids ++ returnedIds events) := by
  have hsame : ∀ s : Timer, s.next = t.next → (∀ p, (s.heap p).id = (t.heap p).id) → Numbered s (ids ++ []) :=
    fun s hnext hid => (List.append_nil ids).symm ▸ h.same hnext hid
  cases step_cases hstep with
  | addTimeCall interval callback times =>
    by_cases haccepted : Accepted interval callback times
    · have huntouched := fun p (hne : t.next ≠ p) => addTimeCall_untouched hne interval callback times
      rw [addTimeCall_accepted haccepted] at huntouched ⊢
      obtain ⟨hids, -⟩ := insert_ids (t.allocated interval callback times) t.next
      have hnext : ((t.allocated interval callback times).insert t.next).next = t.next + 1 := hids.next
      have hreturned : returnedIds [Event.returned ((t.lastID + 1) % 2 ^ 32)] = [t.nextID] := by
        show (if t.nextID = 0 then none else some t.nextID).toList = _
        rw [if_neg (hfree haccepted).1]
        rfl
      rw [hreturned]
      refine ⟨by rw [List.length_append, h.length, List.length_singleton]; exact hnext.symm, fun p hp => ?_⟩
      rcases Nat.lt_or_ge p t.next with hlt | hge
      · rw [List.getElem?_append_left (h.length.symm ▸ hlt), h.id p hlt, (huntouched p (Nat.ne_of_gt hlt)).heap]
      · have hnew : p = t.next := by
          have hle : p < t.next + 1 := hnext ▸ hp
          omega
        subst hnew
        rw [← h.length, List.getElem?_concat_length, h.length]
        refine congrArg some ?_
        show t.nextID = (((t.allocated interval callback times).insert t.next).heap t.next).id
        rw [hids.id, allocated_heap]
        rfl
    · rw [addTimeCall_rejected haccepted]
      exact hsame t rfl fun _ => rfl
  | remove id => exact hsame _ (remove_ids t id).next (remove_ids t id).id
  | update | returned | skipped | invoked | tick => exact hsame _ rfl fun _ => rfl
  | dispatch => exact hsame _ (dispatch_ids t).next (dispatch_ids t).id
  | expand =>
    have honly := expand_only t
    exact hsame _ (by rw [honly]) fun p => by rw [honly]

/-- **The ids of a run are unique exactly when fewer than `2 ^ 32` calls are accepted in it**; then every id
leads to the schedule that it was returned for, as long as that lives. -/
theorem ids_unique_iff (actions : List Action) (t : Timer) (out : List (List Event))
    (hrun : runOps step new actions = some (t, out)) :
    (Along step UniqueId new actions ↔ actions.countP takesId < 2 ^ 32) ∧
      (actions.countP takesId < 2 ^ 32 → Identified t (returnedIds out.flatten)) := by
  have hroom : Along step KeyFree new actions ↔ actions.countP takesId < 2 ^ 32 := by
    rw [along_iff_along Counted (fun s i hs => hs.keyFree_iff i)
      (fun s i s' r hs hi hstep => (step_counted hs i hi hstep).1) actions new new_counted]
    have hcount := along_room_iff lastID takesId (2 ^ 32) Counted
      (fun s i s' r hs hi hstep => step_counted hs i hi hstep) new_counted (by decide) hrun
    rwa [show new.lastID = 0 from rfl, Nat.zero_add] at hcount
  rw [← hroom]
  refine ⟨along_iff_along Keyed (fun s i hs => hs.unique_iff i)
    (fun s i s' r hs hfree hstep => step_keyed hs i hfree hstep)
    actions new new_keyed, fun hfree => ?_⟩
  obtain ⟨hkeyed, hnumbered⟩ := runOps_trace
    (fun s _ rs => Keyed s ∧ Numbered s (returnedIds rs.flatten))
    (fun s is rs i s' r ⟨hk, hn⟩ hok hstep => by
      refine ⟨step_keyed hk i hok hstep, ?_⟩
      rw [List.flatten_append, List.flatten_singleton, returnedIds, List.filterMap_append]
      exact step_numbered hn i hok hstep)
    actions new t [] [] out ⟨new_keyed, rfl, fun p hp => absurd hp (Nat.not_lt_zero p)⟩ hfree hrun
  have hids : ∀ id p, t.scheduleList id = some p → (returnedIds out.flatten)[p]? = some id := fun id p hp => by
    obtain ⟨hid, hlt⟩ := hkeyed.found id p hp
    rw [← hid]
    exact hnumbered.id p hlt
  exact ⟨fun p hlive => ⟨_, hids _ p (hkeyed.live hlive), hkeyed.live hlive⟩, hids⟩

/-- A schedule for ever, a one-shot, and one more behind the end of the one-shot. -/
def threeSchedules : List Action :=
  [.addTimeCall 20 (some 5) (-1), .addTimeCall 10 (some 6) 1] ++ List.replicate 4 .worker ++
    [.addTimeCall 10 (some 7) 1]

theorem ids_unique_three : ∃ t out, runOps step new threeSchedules = some (t, out) ∧
    Along step UniqueId new threeSchedules ∧
    returnedIds out.flatten = [1, 2, 3] ∧ Identified t (returnedIds out.flatten) := by
  obtain ⟨⟨t, out⟩, hrun, hreturned⟩ :
      ∃ x, runOps step new threeSchedules = some x ∧ returnedIds x.2.flatten = [1, 2, 3] := ⟨_, rfl, rfl⟩
  have hfew : threeSchedules.countP takesId < 2 ^ 32 := by decide
  obtain ⟨hunique, hidentified⟩ := ids_unique_iff threeSchedules t out hrun
  exact ⟨t, out, hrun, hunique.mpr hfew, hreturned, hidentified hfew⟩

/-- After `k` accepted calls the counter stands at `k`. -/
theorem counter_not_zero {interval times : Int} {callback : Option Nat}
    (haccepted : Accepted interval callback times) :
    ∀ (k : Nat) (t : Timer), Along step UniqueId t (List.replicate (k + 1) (.addTimeCall interval callback times)) →
      (t.lastID + (k + 1)) % 2 ^ 32 ≠ 0
  | 0, t, h => by
    have hid := (h.1 haccepted).1
    rwa [addTimeCall_accepted haccepted] at hid
  | k + 1, t, h => by
    have hlater := counter_not_zero haccepted k _ (h.2 _ _ rfl)
    have hcounter : (t.addTimeCall interval callback times).1.lastID = (t.lastID + 1) % 2 ^ 32 := by
      rw [addTimeCall_accepted haccepted]
      rcases insert_shape (t.allocated interval callback times) t.next with heq | ⟨slot, heq⟩ <;> rw [heq] <;> rfl
    rw [hcounter] at hlater
    omega

/-- **The call number `2 ^ 32` returns zero.** -/
theorem ids_wrap : ¬ ∀ actions : List Action, Along step UniqueId new actions := by
  intro hclaim
  have haccepted : Accepted 10 (some 7) 1 := by decide
  exact counter_not_zero haccepted (2 ^ 32 - 1) new (hclaim _) (by decide)

end Libws.Core.Timer
