import Libws.Lib.Wheel
import Libws.Core.Timer

/-!
# The timing wheel: where an item waits for its due tick

`Place N E D slot` says which lists of the wheel a schedule due at the tick `D` may wait in, when
`N` is the next tick to dispatch and `E` the last one whose carry has been done: the near list of
`D`, if that is dispatched next at `D`, or the list of the block of `D` on a far level, if that is
carried next at the first tick of this block.  `At t item slot` says that the item is in that
list, once, and in no other.

* `insert_place`, `expand_place` — `insert` puts an item in a place of its due tick, and `expand`
  keeps it in one;
* `dispatch_due`, `dispatch_not_due` — `dispatch` takes exactly the items that are due;
* `call_lists`, `call_heap` — the calls from outside leave the other items alone.
-/

set_option autoImplicit false

namespace Libws.Core.Timer

open Libws.Wheel

/-! ## Places -/

/-- The number of ticks that a list of a far level stands for. -/
def span (level : Nat) : Nat := 2 ^ (8 + 6 * level)

theorem span_pos (level : Nat) : 0 < span level := Nat.pow_pos (by decide)

theorem span_zero : span 0 = 256 := rfl

theorem span_succ (level : Nat) : span (level + 1) = span level * 64 := by
  rw [span, span, Nat.mul_add, ← Nat.add_assoc, Nat.pow_add]

theorem div_span_succ (x level : Nat) : x / span (level + 1) = x / span level / 64 := by
  rw [span_succ, Nat.div_div_eq_div_mul]

/-- A slot number read off a counter of 32 bits. -/
theorem wrapped_slot (x : Nat) {level : Nat} (h : level < 4) :
    x % 2 ^ 32 / span level % 64 = x / span level % 64 :=
  mod_div_mod x (a := 8 + 6 * level) (b := 6) (by omega)

theorem land_near (x : Nat) : x &&& NEAR_MASK = x % 256 := Nat.and_two_pow_sub_one_eq_mod x 8

theorem land_far (x : Nat) : x &&& FAR_MASK = x % 64 := Nat.and_two_pow_sub_one_eq_mod x 6

inductive Place (N E D : Nat) : Slot → Prop where
  | near (hle : N ≤ D) (hlt : D < N + 256) : Place N E D (.near (D % 256))
  | far (level : Nat) (hlevel : level < 4) (hgt : E / span level < D / span level)
      (hle : D / span level ≤ E / span level + 64) : Place N E D (.far level (D / span level % 64))

/-- The item is in the list `slot`, once, and in no other. -/
def At (t : Timer) (item : Nat) (slot : Slot) : Prop :=
  ∀ s, (t.wheel s).count item = if s = slot then 1 else 0

def Absent (t : Timer) (item : Nat) : Prop := ∀ s, (t.wheel s).count item = 0

theorem pushFront_count (t : Timer) (slot s : Slot) (item item' : Nat) :
    ((t.pushFront slot item').wheel s).count item =
      (t.wheel s).count item + if s = slot ∧ item' = item then 1 else 0 := by
  unfold pushFront
  by_cases hs : s = slot
  · subst hs
    simp only [Function.update_self, List.count_cons, beq_iff_eq, true_and]
  · simp only [Function.update_of_ne hs, hs, false_and, if_false, Nat.add_zero]

/-! ## Insertion -/

/-- The step changed nothing but the wheel. -/
def OnlyWheel (t t' : Timer) : Prop := t' = { t with wheel := t'.wheel }

theorem OnlyWheel.trans {t t' t'' : Timer} (h : OnlyWheel t t') (h' : OnlyWheel t' t'') :
    OnlyWheel t t'' := by
  unfold OnlyWheel at *
  rw [h', h]

theorem pushFront_only (t : Timer) (slot : Slot) (item : Nat) : OnlyWheel t (t.pushFront slot item) := rfl

/-- The loop of `insert` pushes the item to one list, or to none. -/
theorem insertFar_shape (item : Nat) : ∀ (left level interval index : Nat) (t : Timer),
    t.insertFar item left level interval index = t ∨
      ∃ slot, t.insertFar item left level interval index = t.pushFront slot item
  | 0, _, _, _, _ => Or.inl rfl
  | left + 1, level, interval, index, t => by
    unfold insertFar
    split
    · exact Or.inr ⟨_, rfl⟩
    · exact insertFar_shape item left _ _ _ t

/-- A delay below `2 ^ 32` ticks finds its level. -/
theorem insertFar_spec (t : Timer) (item n D : Nat) (hn : n < 2 ^ 32) : ∀ (left level : Nat),
    level + left = 4 → span level ≤ n →
    ∃ j, j < 4 ∧ span j ≤ n ∧ n < 64 * span j ∧
      t.insertFar item left level (n / span level) (D % 2 ^ 32 / span level) =
        t.pushFront (.far j (D / span j % 64)) item
  | 0, level, hlevel, hspan => by
    obtain rfl : level = 4 := by omega
    exact absurd hspan (Nat.not_le_of_lt hn)
  | left + 1, level, hlevel, hspan => by
    unfold insertFar
    split
    · rename_i hfit
      have hlt : n < 64 * span level := (Nat.div_lt_iff_lt_mul (span_pos level)).mp hfit
      refine ⟨level, by omega, hspan, hlt, ?_⟩
      rw [land_far, wrapped_slot D (by omega)]
    · rename_i hfit
      have hnext : span (level + 1) ≤ n := by
        have h64 : 64 ≤ n / span level := Nat.le_of_not_lt hfit
        rw [span_succ, Nat.mul_comm]
        exact (Nat.le_div_iff_mul_le (span_pos level)).mp h64
      have hshift : ∀ x, (x / span level) >>> 6 = x / span (level + 1) := fun x => by
        rw [Nat.shiftRight_eq_div_pow, div_span_succ]
      rw [hshift, hshift]
      exact insertFar_spec t item n D hn left (level + 1) (by omega) hnext

/-- The timer after `item->index = uint32_t(tick + interval)`. -/
def indexed (t : Timer) (item : Nat) : Timer :=
  t.setSchedule item { t.heap item with
    index := (((t.tick : Int) + (t.heap item).interval.tdiv MIN_INTERVAL) % 2 ^ 32).toNat }

/-- `insert` sets the index of the item and pushes the item to at most one list. -/
theorem insert_shape (t : Timer) (item : Nat) :
    t.insert item = t.indexed item ∨ ∃ slot, t.insert item = (t.indexed item).pushFront slot item := by
  unfold insert
  simp only
  split
  · exact Or.inr ⟨_, rfl⟩
  · exact insertFar_shape item _ _ _ _ (t.indexed item)

/-- **Insertion puts the item in a place of its due tick.** -/
theorem insert_place {t : Timer} {item n N E : Nat} (hinterval : (t.heap item).interval.tdiv 10 = n)
    (hn : n < 2 ^ 32) (hE : E ≤ t.ticks) (hE' : t.ticks ≤ E + 1) (hN : N ≤ t.ticks + n)
    (hN' : t.ticks ≤ N) :
    (∃ slot, Place N E (t.ticks + n) slot ∧
      ∀ s, ((t.insert item).wheel s).count item = (t.wheel s).count item + if s = slot then 1 else 0) ∧
      (t.insert item).heap item = { t.heap item with index := (t.ticks + n) % 2 ^ 32 } := by
  have hindex : (((t.tick : Int) + (t.heap item).interval.tdiv MIN_INTERVAL) % 2 ^ 32).toNat =
      (t.ticks + n) % 2 ^ 32 := by
    rw [MIN_INTERVAL, hinterval, tick]
    omega
  unfold insert
  simp only [hindex]
  rw [MIN_INTERVAL, hinterval, Int.toNat_natCast]
  generalize ht' : t.setSchedule item { t.heap item with index := (t.ticks + n) % 2 ^ 32 } = t'
  have hpush : ∀ slot s, ((t'.pushFront slot item).wheel s).count item =
      (t.wheel s).count item + if s = slot then 1 else 0 := by
    intro slot s
    subst ht'
    rw [pushFront_count]
    simp only [and_true]
    rfl
  have hheap : t'.heap item = { t.heap item with index := (t.ticks + n) % 2 ^ 32 } := by
    subst ht'
    exact Function.update_self ..
  split
  · rename_i hnear
    have hlt : n < 256 := by unfold NEAR_FUTURE at hnear; omega
    have hmask : (t.ticks + n) % 2 ^ 32 &&& NEAR_MASK = (t.ticks + n) % 256 := by
      rw [land_near]
      omega
    rw [hmask]
    exact ⟨⟨_, .near hN (by omega), hpush _⟩, hheap⟩
  · rename_i hfar
    have hge : span 0 ≤ n := by unfold NEAR_FUTURE at hfar; rw [span_zero]; omega
    obtain ⟨j, hj, hspan, hlt, heq⟩ := insertFar_spec t' item n (t.ticks + n) hn 4 0 rfl hge
    have hshift : ∀ x, x >>> 8 = x / span 0 := fun x => Nat.shiftRight_eq_div_pow x 8
    rw [hshift, hshift, NUM_FAR_WHEEL, heq]
    obtain ⟨hgt, hle⟩ := block_window hE hE' hspan hlt
    exact ⟨⟨_, .far j hj hgt hle, hpush _⟩, hheap⟩

/-! ## The other items -/

/-- The item is in the same lists as before. -/
structure SameLists (item : Nat) (t t' : Timer) : Prop where
  wheel : ∀ s, (t'.wheel s).count item = (t.wheel s).count item
  ticks : t'.ticks = t.ticks
  phase : t'.phase = t.phase
  next : t.next ≤ t'.next

/-- Nothing about the item changed. -/
structure Untouched (item : Nat) (t t' : Timer) : Prop extends SameLists item t t' where
  heap : t'.heap item = t.heap item

theorem SameLists.refl (item : Nat) (t : Timer) : SameLists item t t :=
  ⟨fun _ => rfl, rfl, rfl, Nat.le_refl _⟩

theorem Untouched.refl (item : Nat) (t : Timer) : Untouched item t t := ⟨SameLists.refl item t, rfl⟩

theorem SameLists.trans {item : Nat} {t t' t'' : Timer} (h : SameLists item t t')
    (h' : SameLists item t' t'') : SameLists item t t'' :=
  ⟨fun s => (h'.wheel s).trans (h.wheel s), h'.ticks.trans h.ticks, h'.phase.trans h.phase,
    Nat.le_trans h.next h'.next⟩

theorem Untouched.trans {item : Nat} {t t' t'' : Timer} (h : Untouched item t t')
    (h' : Untouched item t' t'') : Untouched item t t'' :=
  ⟨h.toSameLists.trans h'.toSameLists, h'.heap.trans h.heap⟩

theorem setSchedule_untouched {item item' : Nat} (hne : item' ≠ item) (t : Timer) (schedule : Schedule) :
    Untouched item t (t.setSchedule item' schedule) :=
  ⟨⟨fun _ => rfl, rfl, rfl, Nat.le_refl _⟩, Function.update_of_ne (Ne.symm hne) ..⟩

theorem insert_untouched {item item' : Nat} (hne : item' ≠ item) (t : Timer) :
    Untouched item t (t.insert item') := by
  have hset : Untouched item t (t.indexed item') := setSchedule_untouched hne t _
  rcases insert_shape t item' with heq | ⟨slot, heq⟩
  · rw [heq]
    exact hset
  · rw [heq]
    refine hset.trans ⟨⟨fun s => ?_, rfl, rfl, Nat.le_refl _⟩, rfl⟩
    rw [pushFront_count, if_neg (fun h => hne h.2), Nat.add_zero]

theorem dispatchItem_untouched {item item' : Nat} (hne : item' ≠ item) (t : Timer) :
    Untouched item t (t.dispatchItem item') := by
  unfold dispatchItem
  simp only
  split
  · have hlist : Untouched item t { t with dispatchList := item' :: t.dispatchList } :=
      ⟨⟨fun _ => rfl, rfl, rfl, Nat.le_refl _⟩, rfl⟩
    split
    · exact hlist.trans (insert_untouched hne _)
    · have hset := hlist.trans (setSchedule_untouched hne _
        { t.heap item' with remainTimes := (t.heap item').remainTimes - 1 })
      split
      · exact hset.trans (insert_untouched hne _)
      · exact hset.trans ⟨⟨fun _ => rfl, rfl, rfl, Nat.le_refl _⟩, rfl⟩
  · exact Untouched.refl item t

theorem foldl_dispatchItem_untouched {item : Nat} : ∀ (items : List Nat) (t : Timer), item ∉ items →
    Untouched item t (items.foldl dispatchItem t)
  | [], t, _ => Untouched.refl item t
  | item' :: items, t, hnot => by
    have hne : item' ≠ item := fun h => hnot (h ▸ List.mem_cons_self ..)
    exact (dispatchItem_untouched hne t).trans
      (foldl_dispatchItem_untouched items _ fun h => hnot (List.mem_cons_of_mem _ h))

/-! ## Dispatch -/

theorem insert_dispatchList (t : Timer) (item : Nat) : (t.insert item).dispatchList = t.dispatchList := by
  rcases insert_shape t item with heq | ⟨slot, heq⟩ <;> rw [heq] <;> rfl

theorem dispatchItem_dispatchList (t : Timer) (item : Nat) :
    (t.dispatchItem item).dispatchList =
      (if (t.heap item).remainTimes ≠ 0 then [item] else []) ++ t.dispatchList := by
  unfold dispatchItem
  simp only
  split
  · split
    · rw [insert_dispatchList, List.singleton_append]
    · split
      · rw [insert_dispatchList]
        rfl
      · rfl
  · rfl

/-- The loop of `dispatch` pushes only items that it goes through. -/
theorem foldl_dispatchItem_dispatchList {item : Nat} : ∀ (items : List Nat) (t : Timer),
    item ∉ items →
    ∃ xs, (items.foldl dispatchItem t).dispatchList = xs ++ t.dispatchList ∧ xs.count item = 0
  | [], _, _ => ⟨[], rfl, rfl⟩
  | item' :: items, t, hnot => by
    obtain ⟨xs, hxs, hcount⟩ := foldl_dispatchItem_dispatchList items (t.dispatchItem item')
      fun h => hnot (List.mem_cons_of_mem _ h)
    have hne : item' ≠ item := fun h => hnot (h ▸ List.mem_cons_self ..)
    refine ⟨xs ++ if (t.heap item').remainTimes ≠ 0 then [item'] else [], ?_, ?_⟩
    · rw [List.foldl_cons, hxs, dispatchItem_dispatchList, List.append_assoc]
    · rw [List.count_append, hcount]
      split <;> simp [hne]

theorem pushed_eq {t t' : Timer} {xs : List Nat} (h : t'.dispatchList = xs ++ t.dispatchList) :
    t.pushed t' = xs := by
  rw [pushed, h, List.length_append, Nat.add_sub_cancel, List.take_left]

/-- The schedule of an item that is due at `D`, every `n` ticks, `rem` times more. -/
structure Planned (schedule : Schedule) (n D : Nat) (rem : Int) : Prop where
  interval : schedule.interval.tdiv 10 = n
  index : schedule.index = D % 2 ^ 32
  remainTimes : schedule.remainTimes = rem

/-- The item waits for the tick `D`. -/
structure Waiting (t : Timer) (item n N E D : Nat) (rem : Int) : Prop where
  planned : Planned (t.heap item) n D rem
  place : ∃ slot, Place N E D slot ∧ At t item slot

theorem tick_mask (t : Timer) : t.tick &&& NEAR_MASK = t.ticks % 256 := by
  rw [land_near, tick]
  omega

/-- An item that is not due is not in the list that is dispatched. -/
theorem Place.not_current {A D : Nat} {slot : Slot} (h : Place A A D slot) (hne : D ≠ A) :
    slot ≠ .near (A % 256) := by
  cases h with
  | near hle hlt =>
    intro heq
    injection heq with hmod
    exact hne (slot_inj hle hlt hmod)
  | far => intro heq; cases heq

/-- An item that is due is in the list that is dispatched. -/
theorem Place.current {A : Nat} {slot : Slot} (h : Place A A A slot) : slot = .near (A % 256) := by
  cases h with
  | near => rfl
  | far level hlevel hgt => exact absurd hgt (Nat.lt_irrefl _)

/-- The next tick to dispatch moves on, past no tick that is due. -/
theorem Place.next {A E D : Nat} {slot : Slot} (h : Place A E D slot) (hlt : A < D) :
    Place (A + 1) E D slot := by
  cases h with
  | near hle hlt' => exact .near hlt (by omega)
  | far level hlevel hgt hle => exact .far level hlevel hgt hle

/-- Nothing is due before the next tick to dispatch. -/
theorem Place.due_le {N E D : Nat} {slot : Slot} (h : Place N E D slot) (hN : N ≤ E + 1) : N ≤ D := by
  cases h with
  | near hle => exact hle
  | far level hlevel hgt =>
    have hlt : E < D := Nat.lt_of_not_le fun hle => absurd hgt (Nat.not_lt.mpr (Nat.div_le_div_right hle))
    omega

theorem clearSlot_count (t : Timer) (slot s : Slot) (item : Nat) :
    ((t.clearSlot slot).wheel s).count item = if s = slot then 0 else (t.wheel s).count item := by
  simp only [clearSlot]
  split
  · rename_i hs
    rw [hs, Function.update_self, List.count_nil]
  · rename_i hs
    rw [Function.update_of_ne hs]

/-- An item in another list stays where it is. -/
theorem dispatch_elsewhere {t : Timer} {item : Nat} {slot : Slot} (hat : At t item slot)
    (hslot : slot ≠ .near (t.ticks % 256)) :
    At t.dispatch item slot ∧ t.dispatch.heap item = t.heap item ∧ (t.pushed t.dispatch).count item = 0 := by
  have hnot : item ∉ t.wheel (.near (t.ticks % 256)) := by
    rw [← List.count_eq_zero, hat, if_neg (Ne.symm hslot)]
  have hfold := foldl_dispatchItem_untouched _ t hnot
  obtain ⟨xs, hxs, hcount⟩ := foldl_dispatchItem_dispatchList _ t hnot
  have hpushed : t.pushed t.dispatch = xs := pushed_eq (by rw [dispatch, tick_mask]; exact hxs)
  refine ⟨fun s => ?_, by rw [dispatch, tick_mask]; exact hfold.heap, by rw [hpushed, hcount]⟩
  rw [dispatch, tick_mask, clearSlot_count, hfold.wheel, hat]
  split
  · rename_i hs
    rw [if_neg (fun heq => hslot (heq.symm.trans hs))]
  · rfl

/-- An item that is not due stays where it is. -/
theorem dispatch_not_due {t : Timer} {item n D : Nat} {rem : Int}
    (h : Waiting t item n t.ticks t.ticks D rem) (hne : D ≠ t.ticks) :
    Waiting t.dispatch item n (t.ticks + 1) t.ticks D rem ∧ (t.pushed t.dispatch).count item = 0 := by
  obtain ⟨slot, hplace, hat⟩ := h.place
  obtain ⟨hat', hheap, hcount⟩ := dispatch_elsewhere hat (hplace.not_current hne)
  have hle : t.ticks ≤ D := hplace.due_le (Nat.le_succ _)
  exact ⟨⟨by rw [hheap]; exact h.planned, slot, hplace.next (by omega), hat'⟩, hcount⟩

/-- The loop of `dispatch`, at an item that is in the list once. -/
theorem dispatch_split {t : Timer} {item : Nat} (hcount : (t.wheel (.near (t.ticks % 256))).count item = 1) :
    ∃ t₁ t₂, Untouched item t t₁ ∧ Untouched item (t₁.dispatchItem item) t₂ ∧
      t.dispatch = t₂.clearSlot (.near (t.ticks % 256)) ∧
      (t.pushed t.dispatch).count item = if (t.heap item).remainTimes ≠ 0 then 1 else 0 := by
  have hmem : item ∈ t.wheel (.near (t.ticks % 256)) := List.count_pos_iff.mp (by omega)
  obtain ⟨before, behind, hlist⟩ := List.append_of_mem hmem
  rw [hlist, List.count_append, List.count_cons_self] at hcount
  have hbefore : item ∉ before := List.count_eq_zero.mp (by omega)
  have hbehind : item ∉ behind := List.count_eq_zero.mp (by omega)
  have h₁ := foldl_dispatchItem_untouched before t hbefore
  obtain ⟨xs, hxs, hxs0⟩ := foldl_dispatchItem_dispatchList before t hbefore
  have h₂ := foldl_dispatchItem_untouched behind ((before.foldl dispatchItem t).dispatchItem item) hbehind
  obtain ⟨ys, hys, hys0⟩ := foldl_dispatchItem_dispatchList behind ((before.foldl dispatchItem t).dispatchItem item) hbehind
  have hfold : t.dispatch = (behind.foldl dispatchItem ((before.foldl dispatchItem t).dispatchItem item)).clearSlot
      (.near (t.ticks % 256)) := by
    rw [dispatch, tick_mask, hlist, List.foldl_append, List.foldl_cons]
  have hall : t.dispatch.dispatchList =
      (ys ++ (if (t.heap item).remainTimes ≠ 0 then [item] else []) ++ xs) ++ t.dispatchList := by
    rw [hfold]
    show (behind.foldl dispatchItem ((before.foldl dispatchItem t).dispatchItem item)).dispatchList = _
    rw [hys, dispatchItem_dispatchList, h₁.heap, hxs]
    simp only [List.append_assoc]
  refine ⟨_, _, h₁, h₂, hfold, ?_⟩
  rw [pushed_eq hall, List.count_append, List.count_append, hxs0, hys0]
  split <;> simp

/-- How often a schedule is due after it was dispatched; `-1` stays. -/
def after (rem : Int) : Int := if rem = -1 then -1 else rem - 1

/-- An item with times left is inserted again, in another list. -/
theorem dispatchItem_again {t : Timer} {item n : Nat} {rem : Int} (hplan : Planned (t.heap item) n t.ticks rem)
    (hrem : rem = -1 ∨ 2 ≤ rem) (hpos : 1 ≤ n) (hn : n < 2 ^ 32) :
    Planned ((t.dispatchItem item).heap item) n (t.ticks + n) (after rem) ∧
      ∃ slot, Place (t.ticks + 1) t.ticks (t.ticks + n) slot ∧ slot ≠ .near (t.ticks % 256) ∧
        ∀ s, ((t.dispatchItem item).wheel s).count item =
          (t.wheel s).count item + if s = slot then 1 else 0 := by
  obtain ⟨hinterval, hindex, hremain⟩ := hplan
  have hagain : ∀ t' : Timer, t'.ticks = t.ticks → t'.wheel = t.wheel →
      (t'.heap item).interval.tdiv 10 = n → (t'.heap item).remainTimes = after rem →
      Planned ((t'.insert item).heap item) n (t.ticks + n) (after rem) ∧
        ∃ slot, Place (t.ticks + 1) t.ticks (t.ticks + n) slot ∧ slot ≠ .near (t.ticks % 256) ∧
          ∀ s, ((t'.insert item).wheel s).count item =
            (t.wheel s).count item + if s = slot then 1 else 0 := by
    intro t' hticks hwheel hinterval' hremain'
    obtain ⟨⟨slot, hplace, hcount⟩, hheap⟩ := insert_place (N := t.ticks) (E := t.ticks) hinterval' hn
      (by omega) (by omega) (by omega) (by omega)
    rw [hticks] at hplace hheap
    refine ⟨⟨?_, ?_, ?_⟩, slot, hplace.next (by omega), hplace.not_current (by omega), fun s => ?_⟩
    · rw [hheap]; exact hinterval'
    · rw [hheap]
    · rw [hheap]; exact hremain'
    · rw [hcount, hwheel]
  unfold dispatchItem
  simp only [hremain]
  rw [if_pos (by omega)]
  split
  · rename_i hforever
    exact hagain _ rfl rfl hinterval (by rw [after, if_pos hforever]; exact hremain.trans hforever)
  · rename_i hcounted
    rw [if_pos (by omega)]
    have hset : ∀ t' : Timer, ∀ schedule, (t'.setSchedule item schedule).heap item = schedule :=
      fun t' schedule => Function.update_self ..
    refine hagain _ rfl rfl ?_ ?_
    · rw [hset]; exact hinterval
    · rw [hset, after, if_neg hcounted]

/-- An item that was due for the last time is in no list but the one that is about to be cleared. -/
theorem dispatchItem_last {t : Timer} {item : Nat} (hremain : (t.heap item).remainTimes = 1) (s : Slot) :
    (t.dispatchItem item).wheel s = t.wheel s := by
  unfold dispatchItem
  simp only [hremain]
  rfl

/-- **An item that is due is dispatched**, once; then it waits for its next tick, or is gone. -/
theorem dispatch_due {t : Timer} {item n : Nat} {rem : Int}
    (h : Waiting t item n t.ticks t.ticks t.ticks rem) (hrem : rem = -1 ∨ 1 ≤ rem)
    (hpos : 1 ≤ n ∨ rem = 1) (hn : n < 2 ^ 32) :
    (t.pushed t.dispatch).count item = 1 ∧
      (rem ≠ 1 ∧ Waiting t.dispatch item n (t.ticks + 1) t.ticks (t.ticks + n) (after rem) ∨
        rem = 1 ∧ Absent t.dispatch item) := by
  obtain ⟨slot, hplace, hat⟩ := h.place
  obtain rfl := hplace.current
  obtain ⟨t₁, t₂, h₁, h₂, hfold, hpushed⟩ := dispatch_split (hat _ |>.trans (if_pos rfl))
  have hplan : Planned (t₁.heap item) n t₁.ticks rem := by rw [h₁.heap, h₁.ticks]; exact h.planned
  refine ⟨by rw [hpushed, h.planned.remainTimes, if_pos (by omega)], ?_⟩
  by_cases hlast : rem = 1
  · refine Or.inr ⟨hlast, fun s => ?_⟩
    rw [hfold, clearSlot_count, h₂.wheel, dispatchItem_last (by rw [hplan.remainTimes, hlast]), h₁.wheel, hat]
    split <;> rfl
  · obtain ⟨hplan', slot', hplace', hother, hwheel⟩ := dispatchItem_again hplan (by omega) (by omega) hn
    rw [h₁.ticks] at hplan' hplace' hother
    refine Or.inl ⟨hlast, ?_, slot', hplace', fun s => ?_⟩
    · rw [hfold]
      show Planned (t₂.heap item) _ _ _
      rw [h₂.heap]
      exact hplan'
    · rw [hfold, clearSlot_count, h₂.wheel, hwheel, h₁.wheel, hat]
      split
      · rename_i hs
        rw [if_neg (fun heq => hother (heq.symm.trans hs))]
      · rw [Nat.zero_add]

/-! ## Carry -/

/-- The list that `move` pushes an item with the index `index` to. -/
def target (index : Nat) : (level : Nat) → Slot
  | 0 => .near (index &&& NEAR_MASK)
  | level + 1 =>
    if (index >>> (level * 6 + 8)) &&& FAR_MASK = 0 then target index level
    else .far level ((index >>> (level * 6 + 8)) &&& FAR_MASK)

theorem move_eq (t : Timer) (item : Nat) : ∀ level : Nat,
    t.move item level = t.pushFront (target (t.heap item).index level) item
  | 0 => rfl
  | level + 1 => by
    unfold move target
    simp only
    split
    · exact move_eq t item level
    · rfl

/-- `move` goes to a lower level. -/
theorem target_lower (index : Nat) {j : Nat} (i : Nat) : ∀ {level : Nat}, level ≤ j →
    target index level ≠ .far j i
  | 0, _ => by intro h; cases h
  | level + 1, hle => by
    unfold target
    split
    · exact target_lower index i (by omega)
    · intro h
      injection h with hlevel
      omega

theorem foldl_move (item level : Nat) : ∀ (items : List Nat) (t : Timer),
    OnlyWheel t (items.foldl (fun t item => t.move item level) t) ∧
      ∀ s, ((items.foldl (fun t item => t.move item level) t).wheel s).count item =
        (t.wheel s).count item +
          items.count item * if s = target (t.heap item).index level then 1 else 0
  | [], t => ⟨rfl, fun s => by simp⟩
  | item' :: items, t => by
    obtain ⟨honly, hcount⟩ := foldl_move item level items (t.move item' level)
    rw [List.foldl_cons]
    have hheap : (t.move item' level).heap = t.heap := by rw [move_eq]; rfl
    refine ⟨OnlyWheel.trans (by rw [move_eq]; exact pushFront_only t _ item') honly, fun s => ?_⟩
    rw [hcount, hheap, move_eq, pushFront_count, List.count_cons, Nat.add_mul]
    by_cases hitem : item' = item
    · subst hitem
      simp only [and_true, beq_self_eq_true, if_true, Nat.one_mul]
      omega
    · simp [hitem]

theorem cascade_spec (t : Timer) (item level index : Nat) :
    OnlyWheel t (t.cascade level index) ∧
      ∀ s, ((t.cascade level index).wheel s).count item =
        if s = .far level index then 0
        else (t.wheel s).count item + (t.wheel (.far level index)).count item *
          if s = target (t.heap item).index level then 1 else 0 := by
  obtain ⟨honly, hcount⟩ := foldl_move item level (t.wheel (.far level index)) t
  refine ⟨honly.trans rfl, fun s => ?_⟩
  rw [cascade, clearSlot_count, hcount]

/-- An item in the list that is cascaded moves down; every other one stays. -/
theorem cascade_at (level index : Nat) {t : Timer} {item : Nat} {slot : Slot} (h : At t item slot) :
    At (t.cascade level index) item
      (if slot = .far level index then target (t.heap item).index level else slot) := by
  intro s
  rw [(cascade_spec t item level index).2, h s, h]
  by_cases hslot : slot = .far level index
  · subst hslot
    have hlower := target_lower (t.heap item).index index (Nat.le_refl level)
    rw [if_pos rfl, if_pos rfl, Nat.one_mul]
    split
    · rename_i hs
      rw [if_neg (fun heq => hlower (heq.symm.trans hs))]
    · rw [Nat.zero_add]
  · rw [if_neg hslot, if_neg (Ne.symm hslot), Nat.zero_mul, Nat.add_zero]
    split
    · rename_i hs
      rw [if_neg (fun heq => hslot (heq.symm.trans hs))]
    · rfl

theorem carry_only : ∀ (left level farTick : Nat) (t : Timer), OnlyWheel t (t.carry left level farTick)
  | 0, _, _, _ => rfl
  | left + 1, level, farTick, t => by
    have honly := (cascade_spec t 0 level (farTick &&& FAR_MASK)).1
    unfold carry
    simp only
    split
    · exact honly
    · exact honly.trans (carry_only left (level + 1) (farTick >>> 6) _)

theorem expand_only (t : Timer) : OnlyWheel t t.expand := by
  unfold expand
  split
  · exact carry_only _ _ _ t
  · rfl

/-- The lists that a carry into the tick `A` cascades, from `level` on. -/
def Carried (A level : Nat) (slot : Slot) : Prop :=
  ∃ j, level ≤ j ∧ j < 4 ∧ span j ∣ A ∧ slot = .far j (A / span j % 64)

theorem Carried.of_succ {A level : Nat} {slot : Slot} (h : Carried A level slot) :
    slot = .far level (A / span level % 64) ∨ Carried A (level + 1) slot := by
  obtain ⟨j, hle, hlt, hdvd, hslot⟩ := h
  rcases Nat.eq_or_lt_of_le hle with rfl | hlt'
  · exact Or.inl hslot
  · exact Or.inr ⟨j, hlt', hlt, hdvd, hslot⟩

/-- The carry goes on exactly at the ticks at which a block of the next level begins. -/
theorem slot_zero_iff {A level : Nat} (h : span level ∣ A) :
    A / span level % 64 = 0 ↔ span (level + 1) ∣ A := by
  rw [span_succ]
  refine ⟨fun h0 => ?_, fun hdvd => ?_⟩
  · exact Nat.mul_dvd_of_dvd_div h (Nat.dvd_of_mod_eq_zero h0)
  · exact Nat.mod_eq_zero_of_dvd (Nat.dvd_div_of_mul_dvd hdvd)

theorem span_dvd_span {i j : Nat} (h : i ≤ j) : span i ∣ span j := Nat.pow_dvd_pow 2 (by omega)

/-- The loop of `expand`, from a level that the carry reaches. -/
theorem carry_at {item : Nat} : ∀ (left level : Nat) (t : Timer) (slot : Slot), level + left = 4 →
    span level ∣ t.ticks → At t item slot →
    ∃ slot', At (t.carry left level (t.tick / span level)) item slot' ∧
      (slot' = slot ∧ ¬ Carried t.ticks level slot ∨
        ∃ j, level ≤ j ∧ j < 4 ∧ span j ∣ t.ticks ∧ slot = .far j (t.ticks / span j % 64) ∧
          slot' = target (t.heap item).index j)
  | 0, level, t, slot, hlevel, _, hat => by
    refine ⟨slot, hat, Or.inl ⟨rfl, ?_⟩⟩
    rintro ⟨j, hj, hlt, -⟩
    omega
  | left + 1, level, t, slot, hlevel, hdvd, hat => by
    have hindex : (t.tick / span level) &&& FAR_MASK = t.ticks / span level % 64 := by
      rw [land_far]
      exact wrapped_slot t.ticks (by omega)
    have hshift : (t.tick / span level) >>> 6 = t.tick / span (level + 1) := by
      rw [Nat.shiftRight_eq_div_pow, div_span_succ]
    have hcascade := cascade_at level (t.ticks / span level % 64) hat
    have honly := (cascade_spec t item level (t.ticks / span level % 64)).1
    unfold carry
    simp only [hindex, hshift]
    generalize ht₁ : t.cascade level (t.ticks / span level % 64) = t₁ at hcascade honly
    have hticks : t₁.ticks = t.ticks := by rw [honly]
    have htick : t₁.tick = t.tick := congrArg (· % 2 ^ 32) hticks
    have hheap : t₁.heap = t.heap := by rw [honly]
    by_cases hhere : slot = .far level (t.ticks / span level % 64)
    · rw [if_pos hhere] at hcascade
      have hmoved : ∀ slot', slot' = target (t.heap item).index level →
          ∃ j, level ≤ j ∧ j < 4 ∧ span j ∣ t.ticks ∧ slot = .far j (t.ticks / span j % 64) ∧
            slot' = target (t.heap item).index j :=
        fun slot' hslot' => ⟨level, Nat.le_refl _, by omega, hdvd, hhere, hslot'⟩
      split
      · exact ⟨_, hcascade, Or.inr (hmoved _ rfl)⟩
      · rename_i hzero
        have hnext := (slot_zero_iff hdvd).mp (by omega)
        obtain ⟨slot', hat', hcase⟩ := carry_at left (level + 1) t₁ _ (by omega)
          (by rw [hticks]; exact hnext) hcascade
        rw [htick] at hat'
        refine ⟨slot', hat', Or.inr ?_⟩
        rcases hcase with ⟨hstay, -⟩ | ⟨j, hj, -, -, hfar, -⟩
        · exact hmoved _ hstay
        · exact absurd hfar (target_lower _ _ (by omega))
    · rw [if_neg hhere] at hcascade
      split
      · rename_i hone
        refine ⟨slot, hcascade, Or.inl ⟨rfl, fun hcarried => ?_⟩⟩
        rcases hcarried.of_succ with heq | ⟨j, hj, -, hdvdj, -⟩
        · exact hhere heq
        · exact hone ((slot_zero_iff hdvd).mpr (Nat.dvd_trans (span_dvd_span hj) hdvdj))
      · rename_i hzero
        have hnext := (slot_zero_iff hdvd).mp (by omega)
        obtain ⟨slot', hat', hcase⟩ := carry_at left (level + 1) t₁ _ (by omega)
          (by rw [hticks]; exact hnext) hcascade
        rw [htick] at hat'
        rw [hticks, hheap] at hcase
        refine ⟨slot', hat', ?_⟩
        rcases hcase with ⟨hstay, hnot⟩ | ⟨j, hj, hlt, hdvdj, hfar, hslot'⟩
        · refine Or.inl ⟨hstay, fun hcarried => ?_⟩
          rcases hcarried.of_succ with heq | hlater
          · exact hhere heq
          · exact hnot hlater
        · exact Or.inr ⟨j, by omega, hlt, hdvdj, hfar, hslot'⟩

/-- An item of a block that begins at `A` moves to a place of its due tick. -/
theorem place_target {A D : Nat} (hle : A ≤ D) : ∀ {level : Nat}, level < 4 → span level ∣ A →
    D < A + span level → Place A A D (target (D % 2 ^ 32) level)
  | 0, _, _, hlt => by
    have hmask : D % 2 ^ 32 &&& NEAR_MASK = D % 256 := by rw [land_near]; omega
    rw [target, hmask]
    exact .near hle hlt
  | level + 1, hlevel, hdvd, hlt => by
    have hindex : ((D % 2 ^ 32) >>> (level * 6 + 8)) &&& FAR_MASK = D / span level % 64 := by
      rw [land_far, Nat.shiftRight_eq_div_pow, Nat.add_comm (level * 6), Nat.mul_comm level]
      exact wrapped_slot D (by omega)
    have hdvd' : span level ∣ A := Nat.dvd_trans (span_dvd_span (Nat.le_succ level)) hdvd
    have hzero := (slot_zero_iff hdvd').mpr hdvd
    have hge : A / span level ≤ D / span level := Nat.div_le_div_right hle
    have hlt' : D / span level < A / span level + 64 := by
      rw [Nat.div_lt_iff_lt_mul (span_pos level), Nat.add_mul, Nat.div_mul_cancel hdvd', Nat.mul_comm 64,
        ← span_succ]
      exact hlt
    unfold target
    rw [hindex]
    split
    · rename_i hsame
      have hblock : D / span level = A / span level := slot_inj hge hlt' (by omega)
      exact place_target hle (by omega) hdvd' (block_of_dvd (span_pos level) hdvd' hblock).2
    · rename_i hother
      refine .far level (by omega) ?_ (by omega)
      exact Nat.lt_of_le_of_ne hge fun heq => hother (by rw [← heq, hzero])

/-- An item that no carry at `E + 1` moves is in a place for the ticks from there on. -/
theorem Place.carried {E D : Nat} {slot : Slot} (h : Place (E + 1) E D slot)
    (hnot : ¬ Carried (E + 1) 0 slot) : Place (E + 1) (E + 1) D slot := by
  cases h with
  | near hle hlt => exact .near hle hlt
  | far level hlevel hgt hle =>
    by_cases hdvd : span level ∣ E + 1
    · have hsucc := block_succ hdvd
      have hne : D / span level ≠ (E + 1) / span level := fun heq =>
        hnot ⟨level, Nat.zero_le _, hlevel, hdvd, by rw [heq]⟩
      exact .far level hlevel (by omega) (by omega)
    · have hsame := block_succ_of_not_dvd hdvd
      exact .far level hlevel (by omega) (by omega)

/-- An item that a carry at `A` moves is due in the block that begins at `A`. -/
theorem Place.moved {E D j : Nat} (h : Place (E + 1) E D (.far j ((E + 1) / span j % 64)))
    (hdvd : span j ∣ E + 1) : E + 1 ≤ D ∧ D < E + 1 + span j := by
  generalize hslot : Slot.far j ((E + 1) / span j % 64) = slot at h
  cases h with
  | near => cases hslot
  | far level hlevel hgt hle =>
    injection hslot with hj hmod
    subst hj
    have hsucc := block_succ hdvd
    have hblock : D / span j = (E + 1) / span j := slot_inj (by omega) (by omega) hmod.symm
    exact block_of_dvd (span_pos j) hdvd hblock

/-- Carrying keeps an item in a place of its due tick; an item of the near lists stays where it is. -/
theorem expand_at {t : Timer} {item E D : Nat} {slot : Slot} (hticks : t.ticks = E + 1)
    (hindex : slot = .near (D % 256) ∨ (t.heap item).index = D % 2 ^ 32) (hplace : Place t.ticks E D slot)
    (hat : At t item slot) :
    ∃ slot', (slot = .near (D % 256) → slot' = slot) ∧ Place t.ticks t.ticks D slot' ∧ At t.expand item slot' := by
  rw [hticks] at hplace ⊢
  unfold expand
  rw [tick_mask]
  split
  · rename_i hzero
    have hdvd : span 0 ∣ t.ticks := by rw [span_zero]; exact Nat.dvd_of_mod_eq_zero hzero
    have hshift : t.tick >>> 8 = t.tick / span 0 := Nat.shiftRight_eq_div_pow _ _
    obtain ⟨slot', hat', hcase⟩ := carry_at 4 0 t slot rfl hdvd hat
    rw [hshift, NUM_FAR_WHEEL]
    rw [hticks] at hcase
    refine ⟨slot', ?_, ?_, hat'⟩ <;> rcases hcase with ⟨rfl, hnot⟩ | ⟨j, -, hlevel, hdvdj, rfl, rfl⟩
    · exact fun _ => rfl
    · intro hnear
      cases hnear
    · exact hplace.carried hnot
    · obtain ⟨hle, hlt⟩ := hplace.moved hdvdj
      rw [hindex.resolve_left (fun hnear => by cases hnear)]
      exact place_target hle hlevel hdvdj hlt
  · rename_i hnonzero
    refine ⟨slot, fun _ => rfl, hplace.carried ?_, hat⟩
    rintro ⟨j, -, -, hdvdj, -⟩
    have hdvd : span 0 ∣ E + 1 := Nat.dvd_trans (span_dvd_span (Nat.zero_le j)) hdvdj
    exact hnonzero (by rw [hticks]; exact Nat.mod_eq_zero_of_dvd hdvd)

/-- **Carrying keeps an item in a place of its due tick.** -/
theorem expand_place {t : Timer} {item n E D : Nat} {rem : Int} (hticks : t.ticks = E + 1)
    (h : Waiting t item n t.ticks E D rem) : Waiting t.expand item n t.ticks t.ticks D rem := by
  obtain ⟨hplan, slot, hplace, hat⟩ := h
  obtain ⟨slot', -, hplace', hat'⟩ := expand_at hticks (Or.inr hplan.index) hplace hat
  exact ⟨by rw [expand_only t]; exact hplan, slot', hplace', hat'⟩

/-! ## Steps -/

/-- The dispatches of a run, each with its tick and what it pushed. -/
def dispatches (events : List Event) : List (Nat × List Nat) :=
  events.filterMap fun
    | .dispatched tick pushed => some (tick, pushed)
    | _ => none

/-- The next tick to dispatch. -/
def nextDispatch (t : Timer) : Nat :=
  match t.phase with
  | .tick => t.ticks + 1
  | .dispatch | .expand => t.ticks

/-- The last tick whose carry is done. -/
def lastCarry (t : Timer) : Nat :=
  match t.phase with
  | .expand => t.ticks - 1
  | .dispatch | .tick => t.ticks

theorem nextDispatch_le (t : Timer) : t.nextDispatch ≤ t.lastCarry + 1 := by
  cases hphase : t.phase <;> simp only [nextDispatch, lastCarry, hphase] <;> omega

theorem SameLists.absent {item : Nat} {t t' : Timer} (h : SameLists item t t') (ha : Absent t item) :
    Absent t' item := fun s => (h.wheel s).trans (ha s)

/-- An item that is in no list is not dispatched. -/
theorem dispatch_absent {t : Timer} {item : Nat} (h : Absent t item) :
    Untouched item t t.dispatch ∧ item ∉ t.pushed t.dispatch := by
  have hnot : item ∉ t.wheel (.near (t.ticks % 256)) := List.count_eq_zero.mp (h _)
  have hfold := foldl_dispatchItem_untouched _ t hnot
  obtain ⟨xs, hxs, hcount⟩ := foldl_dispatchItem_dispatchList _ t hnot
  have hpushed : t.pushed t.dispatch = xs := pushed_eq (by rw [dispatch, tick_mask]; exact hxs)
  refine ⟨?_, ?_⟩
  · rw [dispatch, tick_mask]
    refine hfold.trans ⟨⟨fun s => ?_, rfl, rfl, Nat.le_refl _⟩, rfl⟩
    rw [clearSlot_count, hfold.wheel, h, ite_self]
  · rw [hpushed]
    exact List.count_eq_zero.mp hcount

theorem carry_absent {item : Nat} : ∀ (left level farTick : Nat) (t : Timer), Absent t item →
    Absent (t.carry left level farTick) item
  | 0, _, _, _, h => h
  | left + 1, level, farTick, t, h => by
    have habsent : Absent (t.cascade level (farTick &&& FAR_MASK)) item := by
      intro s
      rw [(cascade_spec t item level (farTick &&& FAR_MASK)).2, h, h, Nat.zero_mul, ite_self]
    unfold carry
    simp only
    split
    · exact habsent
    · exact carry_absent left (level + 1) (farTick >>> 6) _ habsent

theorem expand_absent {t : Timer} {item : Nat} (h : Absent t item) : Absent t.expand item := by
  unfold expand
  split
  · exact carry_absent _ _ _ t h
  · exact h

theorem addTimeCall_untouched {t : Timer} {item : Nat} (hne : t.next ≠ item) (interval : Int)
    (callback : Option Nat) (times : Int) : Untouched item t (t.addTimeCall interval callback times).1 := by
  unfold addTimeCall
  split
  · have hnew : Untouched item t { t.setSchedule t.next ⟨(t.lastID + 1) % 2 ^ 32, 0, times, interval, callback⟩ with
        next := t.next + 1, lastID := (t.lastID + 1) % 2 ^ 32 } :=
      ⟨⟨fun _ => rfl, rfl, rfl, Nat.le_succ _⟩, Function.update_of_ne (Ne.symm hne) ..⟩
    have hinsert := hnew.trans (insert_untouched hne _)
    exact hinsert.trans ⟨⟨fun _ => rfl, rfl, rfl, Nat.le_refl _⟩, rfl⟩
  · exact Untouched.refl item t

theorem addTimeCall_next (t : Timer) (interval : Int) (callback : Option Nat) (times : Int) :
    (t.addTimeCall interval callback times).1 = t ∨
      t.next < (t.addTimeCall interval callback times).1.next := by
  unfold addTimeCall
  split
  · right
    simp only
    rcases insert_shape _ _ with heq | ⟨slot, heq⟩ <;> rw [heq] <;> exact Nat.lt_succ_self _
  · exact Or.inl rfl

/-- What a step can do. -/
inductive StepCases (t : Timer) : Action → Timer → List Event → Prop where
  | addTimeCall (interval : Int) (callback : Option Nat) (times : Int) :
    StepCases t (.addTimeCall interval callback times) (t.addTimeCall interval callback times).1
      [.returned (t.addTimeCall interval callback times).2]
  | remove (id : Nat) : StepCases t (.remove id) (t.remove id) []
  | update : StepCases t .update
      { t with frames := (t.updates, t.dispatchList) :: t.frames, dispatchList := [], updates := t.updates + 1 } []
  | returned (update : Nat) (frames : List (Nat × List Nat)) (hframes : t.frames = (update, []) :: frames) :
    StepCases t .updateNext { t with frames := frames } []
  | skipped (update item : Nat) (callList : List Nat) (frames : List (Nat × List Nat))
      (hframes : t.frames = (update, item :: callList) :: frames) (hnone : (t.heap item).callback = none) :
    StepCases t .updateNext { t with frames := (update, callList) :: frames } []
  | invoked (update item : Nat) (callList : List Nat) (frames : List (Nat × List Nat)) (callback : Nat)
      (hframes : t.frames = (update, item :: callList) :: frames)
        (hcallback : (t.heap item).callback = some callback) :
    StepCases t .updateNext { t with frames := (update, callList) :: frames } [.invoked update item callback]
  | dispatch (hphase : t.phase = .dispatch) :
    StepCases t .worker { t.dispatch with phase := .tick } [.dispatched t.tick (t.pushed t.dispatch)]
  | tick (hphase : t.phase = .tick) : StepCases t .worker { t with ticks := t.ticks + 1, phase := .expand } []
  | expand (hphase : t.phase = .expand) : StepCases t .worker { t.expand with phase := .dispatch } []

theorem step_cases {t t' : Timer} {action : Action} {events : List Event} (h : t.step action = some (t', events)) :
    StepCases t action t' events := by
  cases action with
  | addTimeCall interval callback times =>
    cases h
    exact .addTimeCall interval callback times
  | remove id =>
    cases h
    exact .remove id
  | update =>
    cases h
    exact .update
  | updateNext =>
    simp only [step] at h
    split at h
    · cases h
    · rename_i update frames hframes
      cases h
      exact .returned update frames hframes
    · rename_i update item callList frames hframes
      split at h
      · rename_i hnone
        cases h
        exact .skipped update item callList frames hframes hnone
      · rename_i callback hcallback
        cases h
        exact .invoked update item callList frames callback hframes hcallback
  | worker =>
    simp only [step, workerStep, Option.some.injEq] at h
    cases hphase : t.phase with
    | dispatch =>
      simp only [hphase, Prod.mk.injEq] at h
      obtain ⟨rfl, rfl⟩ := h
      exact .dispatch hphase
    | tick =>
      simp only [hphase, Prod.mk.injEq] at h
      obtain ⟨rfl, rfl⟩ := h
      exact .tick hphase
    | expand =>
      simp only [hphase, Prod.mk.injEq] at h
      obtain ⟨rfl, rfl⟩ := h
      exact .expand hphase

/-- A call from outside moves no other item, and dispatches nothing. -/
theorem call_lists {t t' : Timer} {item : Nat} {events : List Event} (action : Action)
    (hworker : action ≠ .worker) (hitem : t'.next ≤ item ∨ item < t.next)
    (hstep : t.step action = some (t', events)) : SameLists item t t' ∧ dispatches events = [] := by
  cases step_cases hstep with
  | addTimeCall interval callback times =>
    refine ⟨?_, rfl⟩
    rcases addTimeCall_next t interval callback times with heq | hlt
    · rw [heq]
      exact SameLists.refl item t
    · exact (addTimeCall_untouched (by omega) interval callback times).toSameLists
  | remove id =>
    refine ⟨?_, rfl⟩
    unfold remove
    split
    · exact SameLists.refl item t
    · exact ⟨fun _ => rfl, rfl, rfl, Nat.le_refl _⟩
  | update | returned | skipped | invoked => exact ⟨⟨fun _ => rfl, rfl, rfl, Nat.le_refl _⟩, rfl⟩
  | dispatch | tick | expand => exact absurd rfl hworker

/-- A call from outside that does not remove the item leaves its schedule alone. -/
theorem call_heap {t t' : Timer} {item : Nat} {events : List Event} (action : Action)
    (hworker : action ≠ .worker) (hitem : item < t.next)
    (hremove : ∀ id, action = .remove id → t.scheduleList id ≠ some item)
    (hstep : t.step action = some (t', events)) : t'.heap item = t.heap item := by
  cases step_cases hstep with
  | addTimeCall interval callback times =>
    exact (addTimeCall_untouched (by omega) interval callback times).heap
  | remove id =>
    unfold remove
    split
    · rfl
    · rename_i item' hid
      have hne : item ≠ item' := fun heq => hremove id rfl (heq ▸ hid)
      exact Function.update_of_ne hne ..
  | update | returned | skipped | invoked => rfl
  | dispatch | tick | expand => exact absurd rfl hworker

/-! ## Items that are gone -/

/-- No round takes the item any more. -/
def Gone (t : Timer) (item : Nat) : Prop := (t.heap item).remainTimes = 0 ∨ Absent t item

/-- The loop of `dispatch` skips an item with no times left. -/
theorem foldl_dispatchItem_skips {item : Nat} : ∀ (items : List Nat) (t : Timer), (t.heap item).remainTimes = 0 →
    ((items.foldl dispatchItem t).heap item).remainTimes = 0 ∧ t.next ≤ (items.foldl dispatchItem t).next ∧
      ∃ xs, (items.foldl dispatchItem t).dispatchList = xs ++ t.dispatchList ∧ item ∉ xs
  | [], t, h => ⟨h, Nat.le_refl _, [], rfl, List.not_mem_nil⟩
  | item' :: items, t, h => by
    by_cases hitem : item' = item
    · subst hitem
      have hskip : t.dispatchItem item' = t := by
        unfold dispatchItem
        exact if_neg fun hne => hne h
      rw [List.foldl_cons, hskip]
      exact foldl_dispatchItem_skips items t h
    · have hother := dispatchItem_untouched hitem t
      obtain ⟨hdone, hnext, xs, hxs, hnot⟩ := foldl_dispatchItem_skips items (t.dispatchItem item')
        (by rw [hother.heap]; exact h)
      refine ⟨hdone, Nat.le_trans hother.next hnext,
        xs ++ if (t.heap item').remainTimes ≠ 0 then [item'] else [], ?_, ?_⟩
      · rw [List.foldl_cons, hxs, dispatchItem_dispatchList, List.append_assoc]
      · rw [List.mem_append, not_or]
        refine ⟨hnot, ?_⟩
        split <;> simp [Ne.symm hitem]

theorem dispatch_gone {t : Timer} {item : Nat} (h : Gone t item) :
    Gone t.dispatch item ∧ t.next ≤ t.dispatch.next ∧ item ∉ t.pushed t.dispatch := by
  rcases h with hdone | habsent
  · obtain ⟨hdone', hnext, xs, hxs, hnot⟩ := foldl_dispatchItem_skips (t.wheel (.near (t.tick &&& NEAR_MASK))) t hdone
    have hfront : t.dispatch.dispatchList = xs ++ t.dispatchList := hxs
    exact ⟨Or.inl hdone', hnext, by rw [pushed_eq hfront]; exact hnot⟩
  · obtain ⟨hsame, hnot⟩ := dispatch_absent habsent
    exact ⟨Or.inr (hsame.toSameLists.absent habsent), hsame.next, hnot⟩

/-- **What is gone stays gone.** -/
theorem step_gone {t t' : Timer} {item : Nat} {events : List Event} (h : Gone t item) (hknown : item < t.next)
    (action : Action) (hstep : t.step action = some (t', events)) :
    Gone t' item ∧ item < t'.next ∧ ∀ p ∈ dispatches events, item ∉ p.2 := by
  by_cases hworker : action = .worker
  · subst hworker
    cases step_cases hstep with
    | dispatch =>
      obtain ⟨hgone, hnext, hnot⟩ := dispatch_gone h
      refine ⟨hgone, Nat.lt_of_lt_of_le hknown hnext, fun p hp => ?_⟩
      rw [List.mem_singleton.mp hp]
      exact hnot
    | tick => exact ⟨h, hknown, fun p hp => by cases hp⟩
    | expand =>
      have honly := expand_only t
      refine ⟨h.imp (fun hdone => ?_) expand_absent, by rw [honly]; exact hknown, fun p hp => by cases hp⟩
      rw [honly]
      exact hdone
  · obtain ⟨hlists, hnone⟩ := call_lists action hworker (Or.inr hknown) hstep
    refine ⟨h.imp (fun hdone => ?_) hlists.absent, Nat.lt_of_lt_of_le hknown hlists.next, fun p hp => ?_⟩
    · by_cases hremove : ∃ id, action = .remove id ∧ t.scheduleList id = some item
      · obtain ⟨id, rfl, hid⟩ := hremove
        cases hstep
        simp only [remove, hid, setSchedule, Function.update_self]
      · rw [call_heap action hworker hknown (fun id hid hfound => hremove ⟨id, hid, hfound⟩) hstep]
        exact hdone
    · rw [hnone] at hp
      cases hp

/-- `remove` makes the item that it finds one that is gone. -/
theorem remove_gone {t : Timer} {id item : Nat} (h : t.scheduleList id = some item) : Gone (t.remove id) item := by
  left
  simp only [remove, h, setSchedule, Function.update_self]

end Libws.Core.Timer
