import Libws.Lib.Machine
import Libws.Lib.Trace
import Libws.Core.TimerWheel

/-!
# The timer fires every schedule at exactly its due ticks

* `Clock` — the dispatches of a run so far, which holds after every step (`step_clock`);
* `Fired` — an item that was added at the tick `A` and has been due `m` times; one step keeps it
  (`step_fired`) unless it removes the item;
* `fires_at_exactly_its_due_ticks` — every run.
-/

set_option autoImplicit false

namespace Libws.Core.Timer

open Libws.Machine Libws.Trace

/-! ## The dispatches of a run -/

/-- The `R`-th dispatch is that of the tick `R`, and nothing that is not in use is in a list or was
    dispatched. -/
structure Clock (t : Timer) (history : List (Nat × List Nat)) : Prop where
  rounds : history.length = t.nextDispatch
  ticks : ∀ R p, history[R]? = some p → p.1 = R % 2 ^ 32
  started : t.phase = .expand → 0 < t.ticks
  fresh : ∀ item, t.next ≤ item → Absent t item ∧ ∀ p ∈ history, item ∉ p.2

theorem new_clock : Clock new [] :=
  ⟨rfl, fun _ _ h => absurd h (by simp), fun h => absurd h (by decide),
    fun _ _ => ⟨fun _ => rfl, fun _ h => absurd h List.not_mem_nil⟩⟩

theorem nextDispatch_eq {t t' : Timer} (hticks : t'.ticks = t.ticks) (hphase : t'.phase = t.phase) :
    t'.nextDispatch = t.nextDispatch ∧ t'.lastCarry = t.lastCarry := by
  rw [nextDispatch, nextDispatch, lastCarry, lastCarry, hticks, hphase]
  exact ⟨rfl, rfl⟩

/-- The dispatch of a timer whose unused items are in no list. -/
theorem Clock.dispatch_ticks {t : Timer} {history : List (Nat × List Nat)} (h : Clock t history) :
    t.dispatch.ticks = t.ticks ∧ t.next ≤ t.dispatch.next :=
  have hfresh := (dispatch_absent (h.fresh t.next (Nat.le_refl _)).1).1
  ⟨hfresh.ticks, hfresh.next⟩

/-- **One step of the clock.** -/
theorem step_clock {t t' : Timer} {history : List (Nat × List Nat)} {events : List Event}
    (h : Clock t history) (action : Action) (hstep : t.step action = some (t', events)) :
    Clock t' (history ++ dispatches events) := by
  by_cases hworker : action = .worker
  · subst hworker
    cases step_cases hstep with
    | dispatch hphase =>
      obtain ⟨hticks, hnext⟩ := h.dispatch_ticks
      have hrounds : history.length = t.ticks := by rw [h.rounds, nextDispatch, hphase]
      refine ⟨?_, fun R p hp => ?_, (fun hexpand => by cases hexpand), fun item hitem => ?_⟩
      · simp only [dispatches, List.filterMap_cons, List.filterMap_nil, List.length_append, List.length_singleton,
          nextDispatch, hticks, hrounds]
      · rcases getElem?_concat hp with ⟨-, hold⟩ | ⟨rfl, rfl⟩
        · exact h.ticks R p hold
        · rw [hrounds]
          rfl
      · obtain ⟨habsent, hnot⟩ := h.fresh item (Nat.le_trans hnext hitem)
        obtain ⟨hsame, hnew⟩ := dispatch_absent habsent
        refine ⟨hsame.toSameLists.absent habsent, fun p hp => ?_⟩
        rcases List.mem_append.mp hp with hp | hp
        · exact hnot p hp
        · rw [List.mem_singleton.mp hp]
          exact hnew
    | tick hphase =>
      rw [show dispatches [] = [] from rfl, List.append_nil]
      exact ⟨by rw [h.rounds, nextDispatch, hphase]; rfl, h.ticks, fun _ => Nat.succ_pos _, h.fresh⟩
    | expand hphase =>
      rw [show dispatches [] = [] from rfl, List.append_nil]
      have honly := expand_only t
      refine ⟨?_, h.ticks, (fun hexpand => by cases hexpand), fun item hitem => ?_⟩
      · rw [h.rounds, nextDispatch, hphase, honly]
        rfl
      · have hitem' : t.next ≤ item := by rw [honly] at hitem; exact hitem
        exact ⟨expand_absent (h.fresh item hitem').1, (h.fresh item hitem').2⟩
  · have hlists := fun item (hitem : t'.next ≤ item ∨ item < t.next) => call_lists action hworker hitem hstep
    have hsame := (hlists t'.next (Or.inl (Nat.le_refl _))).1
    obtain ⟨hnext, -⟩ := nextDispatch_eq hsame.ticks hsame.phase
    rw [(hlists t'.next (Or.inl (Nat.le_refl _))).2, List.append_nil]
    refine ⟨by rw [h.rounds, hnext], h.ticks, ?_, fun item hitem => ?_⟩
    · rw [hsame.phase, hsame.ticks]
      exact h.started
    · obtain ⟨habsent, hnot⟩ := h.fresh item (Nat.le_trans hsame.next hitem)
      exact ⟨(hlists item (Or.inl hitem)).1.absent habsent, hnot⟩

/-! ## One item -/

/-- The item was added at the tick `A`, is due every `n` ticks, `times` times, and has been due `m`
    times so far. -/
structure Fired (item A n : Nat) (times : Int) (t : Timer) (history : List (Nat × List Nat)) (m : Nat) :
    Prop where
  clock : Clock t history
  known : item < t.next
  past : ∀ j, 1 ≤ j → j ≤ m → A + j * n < t.nextDispatch
  dispatched : ∀ R p, history[R]? = some p →
    p.2.count item ≤ 1 ∧ (item ∈ p.2 ↔ ∃ j, 1 ≤ j ∧ j ≤ m ∧ R = A + j * n)
  status : (times = -1 ∨ (m : Int) < times) ∧
      Waiting t item n t.nextDispatch t.lastCarry (A + (m + 1) * n) (if times = -1 then -1 else times - m) ∨
    times = m ∧ Absent t item

/-- A step that leaves the item in its lists. -/
theorem Fired.same {item A n m : Nat} {times : Int} {t t' : Timer} {history : List (Nat × List Nat)}
    (h : Fired item A n times t history m) (hclock : Clock t' history) (hnext : t'.nextDispatch = t.nextDispatch)
    (hcarry : t'.lastCarry = t.lastCarry) (hknown : item < t'.next) (hheap : t'.heap item = t.heap item)
    (hwheel : ∀ s, (t'.wheel s).count item = (t.wheel s).count item) :
    Fired item A n times t' history m := by
  refine ⟨hclock, hknown, by rw [hnext]; exact h.past, h.dispatched, ?_⟩
  rcases h.status with ⟨htimes, hplan, slot, hplace, hat⟩ | ⟨htimes, habsent⟩
  · refine Or.inl ⟨htimes, by rw [hheap]; exact hplan, slot, by rw [hnext, hcarry]; exact hplace, fun s => ?_⟩
    rw [hwheel]
    exact hat s
  · exact Or.inr ⟨htimes, fun s => (hwheel s).trans (habsent s)⟩

/-- A dispatch that does not take the item. -/
theorem Fired.dispatched_other {item A n m : Nat} {times : Int} {t : Timer}
    {history : List (Nat × List Nat)} (h : Fired item A n times t history m) {q : Nat × List Nat}
    (hrounds : history.length = t.nextDispatch) (hq : item ∉ q.2) (R : Nat) (p : Nat × List Nat)
    (hp : (history ++ [q])[R]? = some p) :
    p.2.count item ≤ 1 ∧ (item ∈ p.2 ↔ ∃ j, 1 ≤ j ∧ j ≤ m ∧ R = A + j * n) := by
  rcases getElem?_concat hp with ⟨-, hold⟩ | ⟨rfl, rfl⟩
  · exact h.dispatched R p hold
  · refine ⟨by rw [List.count_eq_zero.mpr hq]; exact Nat.zero_le _, fun hmem => absurd hmem hq, ?_⟩
    rintro ⟨j, hj, hjm, heq⟩
    have hlt := h.past j hj hjm
    omega

/-- A dispatch that takes the item. -/
theorem Fired.dispatched_due {item A n m : Nat} {times : Int} {t : Timer}
    {history : List (Nat × List Nat)} (h : Fired item A n times t history m) {q : Nat × List Nat}
    (hrounds : history.length = A + (m + 1) * n) (hq : q.2.count item = 1) (R : Nat) (p : Nat × List Nat)
    (hp : (history ++ [q])[R]? = some p) :
    p.2.count item ≤ 1 ∧ (item ∈ p.2 ↔ ∃ j, 1 ≤ j ∧ j ≤ m + 1 ∧ R = A + j * n) := by
  rcases getElem?_concat hp with ⟨hlt, hold⟩ | ⟨hR, rfl⟩
  · obtain ⟨hle, hiff⟩ := h.dispatched R p hold
    refine ⟨hle, hiff.trans ⟨?_, ?_⟩⟩
    · rintro ⟨j, hj, hjm, heq⟩
      exact ⟨j, hj, by omega, heq⟩
    · rintro ⟨j, hj, hjm, heq⟩
      rcases Nat.eq_or_lt_of_le hjm with rfl | hjm
      · omega
      · exact ⟨j, hj, by omega, heq⟩
  · refine ⟨by omega, fun _ => ⟨m + 1, by omega, Nat.le_refl _, by omega⟩, fun _ => ?_⟩
    exact List.count_pos_iff.mp (by omega)

theorem dispatch_fired {item A n m : Nat} {times : Int} {t : Timer} {history : List (Nat × List Nat)}
    (hn : n < 2 ^ 32) (hkind : 1 ≤ n ∨ times = 1) (htimes : times = -1 ∨ 1 ≤ times)
    (h : Fired item A n times t history m) (hphase : t.phase = .dispatch)
    (hclock : Clock { t.dispatch with phase := .tick } (history ++ [(t.tick, t.pushed t.dispatch)])) :
    ∃ m', Fired item A n times { t.dispatch with phase := .tick }
      (history ++ [(t.tick, t.pushed t.dispatch)]) m' := by
  obtain ⟨hticks, hnext⟩ := h.clock.dispatch_ticks
  have hN : t.nextDispatch = t.ticks := by rw [nextDispatch, hphase]
  have hE : t.lastCarry = t.ticks := by rw [lastCarry, hphase]
  have hN' : ({ t.dispatch with phase := .tick } : Timer).nextDispatch = t.ticks + 1 :=
    congrArg (· + 1) hticks
  have hE' : ({ t.dispatch with phase := .tick } : Timer).lastCarry = t.ticks := hticks
  have hrounds : history.length = t.ticks := by rw [h.clock.rounds, hN]
  have hknown := Nat.lt_of_lt_of_le h.known hnext
  have hpast : ∀ j, 1 ≤ j → j ≤ m → A + j * n < t.ticks + 1 := fun j hj hjm => by
    have hlt := h.past j hj hjm
    omega
  rcases h.status with ⟨hleft, hwait⟩ | ⟨hdone, habsent⟩
  · rw [hN, hE] at hwait
    by_cases hdue : A + (m + 1) * n = t.ticks
    · rw [hdue] at hwait
      obtain ⟨hcount, hcase⟩ := dispatch_due hwait (by split <;> omega) (by split <;> omega) hn
      refine ⟨m + 1, hclock, hknown, fun j hj hjm => ?_,
        h.dispatched_due (by rw [hrounds, hdue]) hcount, ?_⟩
      · rw [hN']
        rcases Nat.eq_or_lt_of_le hjm with rfl | hjm
        · omega
        · exact hpast j hj (by omega)
      · rw [hN', hE']
        rcases hcase with ⟨hmore, hwait'⟩ | ⟨hlast, habsent⟩
        · have hnextDue : A + (m + 1 + 1) * n = t.ticks + n := by rw [Nat.add_mul, Nat.one_mul]; omega
          have hrem : after (if times = -1 then -1 else times - (m : Int)) =
              if times = -1 then -1 else times - ((m + 1 : Nat) : Int) := by
            unfold after
            split <;> split <;> omega
          rw [hrem] at hwait'
          refine Or.inl ⟨?_, hnextDue ▸ hwait'.planned, hnextDue ▸ hwait'.place⟩
          split at hmore <;> omega
        · refine Or.inr ⟨?_, habsent⟩
          split at hlast <;> omega
    · obtain ⟨hwait', hcount⟩ := dispatch_not_due hwait hdue
      refine ⟨m, hclock, hknown, by rw [hN']; exact hpast,
        h.dispatched_other (by rw [hrounds, hN]) (List.count_eq_zero.mp hcount), ?_⟩
      rw [hN', hE']
      exact Or.inl ⟨hleft, hwait'.planned, hwait'.place⟩
  · obtain ⟨hsame, hnot⟩ := dispatch_absent habsent
    refine ⟨m, hclock, hknown, by rw [hN']; exact hpast,
      h.dispatched_other (by rw [hrounds, hN]) hnot, ?_⟩
    exact Or.inr ⟨hdone, hsame.toSameLists.absent habsent⟩

theorem expand_fired {item A n m : Nat} {times : Int} {t : Timer} {history : List (Nat × List Nat)}
    (h : Fired item A n times t history m) (hphase : t.phase = .expand)
    (hclock : Clock { t.expand with phase := .dispatch } history) :
    Fired item A n times { t.expand with phase := .dispatch } history m := by
  have honly := expand_only t
  have hticks : t.expand.ticks = t.ticks := by rw [honly]
  have hnext : t.expand.next = t.next := by rw [honly]
  have hN : t.nextDispatch = t.ticks := by rw [nextDispatch, hphase]
  have hE : t.lastCarry = t.ticks - 1 := by rw [lastCarry, hphase]
  have hN' : ({ t.expand with phase := .dispatch } : Timer).nextDispatch = t.ticks := hticks
  have hE' : ({ t.expand with phase := .dispatch } : Timer).lastCarry = t.ticks := hticks
  have hstarted := h.clock.started hphase
  refine ⟨hclock, hnext.symm ▸ h.known, by rw [hN', ← hN]; exact h.past, h.dispatched, ?_⟩
  rw [hN', hE']
  rcases h.status with ⟨hleft, hwait⟩ | ⟨hdone, habsent⟩
  · rw [hN, hE] at hwait
    have hwait' := expand_place (by omega) hwait
    exact Or.inl ⟨hleft, hwait'.planned, hwait'.place⟩
  · exact Or.inr ⟨hdone, expand_absent habsent⟩

/-- **One step**: the item is due once more, or as often as before. -/
theorem step_fired {item A n m : Nat} {times : Int} {t t' : Timer} {history : List (Nat × List Nat)}
    {events : List Event} (hn : n < 2 ^ 32) (hkind : 1 ≤ n ∨ times = 1) (htimes : times = -1 ∨ 1 ≤ times)
    (h : Fired item A n times t history m) (action : Action)
    (hkept : ∀ id, action = .remove id → t.scheduleList id ≠ some item)
    (hstep : t.step action = some (t', events)) :
    ∃ m', Fired item A n times t' (history ++ dispatches events) m' := by
  have hclock' := step_clock h.clock action hstep
  by_cases hworker : action = .worker
  · subst hworker
    cases step_cases hstep with
    | dispatch hphase =>
      exact dispatch_fired hn hkind htimes h hphase hclock'
    | tick hphase =>
      rw [show dispatches [] = [] from rfl, List.append_nil] at hclock' ⊢
      refine ⟨m, h.same hclock' ?_ ?_ h.known rfl fun _ => rfl⟩
      · rw [nextDispatch, nextDispatch, hphase]
      · rw [lastCarry, lastCarry, hphase, Nat.add_sub_cancel]
    | expand hphase =>
      rw [show dispatches [] = [] from rfl, List.append_nil] at hclock' ⊢
      exact ⟨m, expand_fired h hphase hclock'⟩
  · obtain ⟨hlists, hnone⟩ := call_lists action hworker (Or.inr h.known) hstep
    obtain ⟨hnext, hcarry⟩ := nextDispatch_eq hlists.ticks hlists.phase
    rw [hnone, List.append_nil] at hclock' ⊢
    exact ⟨m, h.same hclock' hnext hcarry (Nat.lt_of_lt_of_le h.known hlists.next)
      (call_heap action hworker h.known hkept hstep) hlists.wheel⟩

theorem insert_clock (t : Timer) (item : Nat) :
    (t.insert item).nextDispatch = t.nextDispatch ∧ (t.insert item).lastCarry = t.lastCarry ∧
      (t.insert item).next = t.next := by
  rcases insert_shape t item with heq | ⟨slot, heq⟩ <;> rw [heq] <;> exact ⟨rfl, rfl, rfl⟩

/-- **Adding**: the new item waits for its first due tick. -/
theorem addTimeCall_fired {t : Timer} {history : List (Nat × List Nat)} {interval times : Int} {n : Nat}
    (callback : Nat) (h : Clock t history) (hinterval : interval.tdiv 10 = n) (hn : n < 2 ^ 32)
    (hkind : 1 ≤ n ∧ (times = -1 ∨ 1 ≤ times) ∨ n = 0 ∧ times = 1 ∧ t.phase ≠ .tick)
    (hclock : Clock (t.addTimeCall interval (some callback) times).1 history) :
    Fired t.next t.ticks n times (t.addTimeCall interval (some callback) times).1 history 0 := by
  have hguard : (some callback).isSome ∧ times ≠ 0 ∧ (times = 1 ∨ interval ≥ MIN_INTERVAL) := by
    have hge : 1 ≤ n → 10 ≤ interval := by grind
    unfold MIN_INTERVAL
    exact ⟨rfl, by omega, by omega⟩
  obtain ⟨habsent, hnot⟩ := h.fresh t.next (Nat.le_refl _)
  unfold addTimeCall at hclock ⊢
  rw [if_pos hguard] at hclock ⊢
  simp only at hclock ⊢
  generalize ht' : ({ t.setSchedule t.next ⟨(t.lastID + 1) % 2 ^ 32, 0, times, interval, some callback⟩ with
    next := t.next + 1, lastID := (t.lastID + 1) % 2 ^ 32 } : Timer) = t' at hclock ⊢
  have hheap : t'.heap t.next = ⟨(t.lastID + 1) % 2 ^ 32, 0, times, interval, some callback⟩ := by
    subst ht'
    exact Function.update_self ..
  have hwheel : t'.wheel = t.wheel := by subst ht'; rfl
  have hticks : t'.ticks = t.ticks := by subst ht'; rfl
  have hphase : t'.phase = t.phase := by subst ht'; rfl
  have hnext : t'.next = t.next + 1 := by subst ht'; rfl
  obtain ⟨hN, hE, hnext'⟩ := insert_clock t' t.next
  have hwindow : t'.lastCarry ≤ t'.ticks ∧ t'.ticks ≤ t'.lastCarry + 1 ∧ t'.ticks ≤ t'.nextDispatch ∧
      t'.nextDispatch ≤ t'.ticks + n := by
    rw [← hphase] at hkind
    cases hp : t'.phase with
    | tick =>
      have hn : 1 ≤ n := by grind
      simp only [nextDispatch, lastCarry, hp]
      omega
    | dispatch | expand =>
      simp only [nextDispatch, lastCarry, hp]
      omega
  obtain ⟨hE₁, hE₂, hN₁, hN₂⟩ := hwindow
  obtain ⟨⟨slot, hplace, hcount⟩, hheap'⟩ := insert_place (by rw [hheap]; exact hinterval) hn hE₁ hE₂ hN₂ hN₁
  have hdue : t.ticks + (0 + 1) * n = t'.ticks + n := by rw [hticks, Nat.zero_add, Nat.one_mul]
  refine ⟨hclock, by rw [hnext', hnext]; exact Nat.lt_succ_self _,
    fun j hj hj0 => absurd hj (by omega), fun R p hp => ?_, Or.inl ⟨by omega, ?_, slot, ?_, fun s => ?_⟩⟩
  · have hmem := hnot p (List.mem_of_getElem? hp)
    refine ⟨by rw [List.count_eq_zero.mpr hmem]; exact Nat.zero_le _, fun h => absurd h hmem, ?_⟩
    rintro ⟨j, hj, hj0, -⟩
    omega
  · rw [hheap', hheap, hdue]
    refine ⟨hinterval, rfl, ?_⟩
    simp only
    split <;> omega
  · rw [← hN, ← hE, ← hdue] at hplace
    exact hplace
  · rw [hcount, hwheel, habsent, Nat.zero_add]

/-! ## Every run -/

theorem dispatches_concat (rs : List (List Event)) (r : List Event) :
    dispatches (rs ++ [r]).flatten = dispatches rs.flatten ++ dispatches r := by
  simp only [dispatches, List.flatten_append, List.flatten_cons, List.flatten_nil, List.append_nil,
    List.filterMap_append]

/-- What the run so far says about the rounds that are over. -/
theorem Fired.rounds {item A n m : Nat} {times : Int} {t : Timer} {history : List (Nat × List Nat)}
    (h : Fired item A n times t history m) (R : Nat) (p : Nat × List Nat) (hp : history[R]? = some p) :
    p.1 = R % 2 ^ 32 ∧ p.2.count item ≤ 1 ∧
      (item ∈ p.2 ↔ ∃ j : Nat, 1 ≤ j ∧ (times = -1 ∨ (j : Int) ≤ times) ∧ R = A + j * n) := by
  have hlt : R < t.nextDispatch := by
    rw [← h.clock.rounds]
    exact (List.getElem?_eq_some_iff.mp hp).1
  obtain ⟨hle, hiff⟩ := h.dispatched R p hp
  refine ⟨h.clock.ticks R p hp, hle, hiff.trans ⟨?_, ?_⟩⟩
  · rintro ⟨j, hj, hjm, heq⟩
    refine ⟨j, hj, ?_, heq⟩
    rcases h.status with ⟨hleft, -⟩ | ⟨hdone, -⟩ <;> omega
  · rintro ⟨j, hj, hjt, heq⟩
    refine ⟨j, hj, Nat.le_of_not_lt fun hmore => ?_, heq⟩
    rcases h.status with ⟨-, -, slot, hplace, -⟩ | ⟨hdone, -⟩
    · -- the next due tick is not before the next dispatch
      have hdue := hplace.due_le t.nextDispatch_le
      have hmul : (m + 1) * n ≤ j * n := Nat.mul_le_mul_right n hmore
      omega
    · omega

/-- **The timing wheel.**  In every run, an item that is added at the tick `T` and never removed
is pushed by exactly the rounds `T + n, …, T + times * n`, once in each. -/
theorem fires_at_exactly_its_due_ticks (before behind : List Action) (interval : Int) (callback : Nat)
    (times : Int) (n : Nat) (t₁ t : Timer) (out₁ out : List (List Event))
    (hbefore : runOps step new before = some (t₁, out₁))
    (hrun : runOps step new (before ++ .addTimeCall interval (some callback) times :: behind) = some (t, out))
    (hinterval : interval.tdiv 10 = n) (hn : n < 2 ^ 32)
    (hkind : 1 ≤ n ∧ (times = -1 ∨ 1 ≤ times) ∨ n = 0 ∧ times = 1 ∧ t₁.phase ≠ .tick)
    (hkept : Along step (fun s a => ∀ id, a = .remove id → s.scheduleList id ≠ some t₁.next)
      (t₁.addTimeCall interval (some callback) times).1 behind) :
    ∀ R p, (dispatches out.flatten)[R]? = some p →
      p.1 = R % 2 ^ 32 ∧ p.2.count t₁.next ≤ 1 ∧
        (t₁.next ∈ p.2 ↔ ∃ j : Nat, 1 ≤ j ∧ (times = -1 ∨ (j : Int) ≤ times) ∧ R = t₁.ticks + j * n) := by
  have htimes : times = -1 ∨ 1 ≤ times := by omega
  have hclock : Clock t₁ (dispatches out₁.flatten) :=
    runOps_inv (fun s _ rs => Clock s (dispatches rs.flatten))
      (fun s is rs i s' r h hstep => by rw [dispatches_concat]; exact step_clock h i hstep) new_clock hbefore
  obtain ⟨outs, hrest, rfl⟩ := runOps_append _ _ _ _ _ _ _ hbefore hrun
  simp only [runOps, step] at hrest
  split at hrest
  · cases hrest
  rename_i t₂ outs₂ hbehind
  cases hrest
  have hclock₂ := step_clock hclock (.addTimeCall interval (some callback) times) rfl
  rw [← dispatches_concat] at hclock₂
  have hsame : dispatches (out₁ ++ [[Event.returned (t₁.addTimeCall interval (some callback) times).2]]).flatten =
      dispatches out₁.flatten := (dispatches_concat _ _).trans (List.append_nil _)
  have hadded := addTimeCall_fired callback hclock hinterval hn hkind (hsame ▸ hclock₂)
  obtain ⟨m, hend⟩ := runOps_trace
    (fun s _ rs => ∃ m, Fired t₁.next t₁.ticks n times s (dispatches rs.flatten) m)
    (fun s is rs i s' r hm hok hstep => by
      obtain ⟨m, hm⟩ := hm
      rw [dispatches_concat]
      exact step_fired hn (by omega) htimes hm i hok hstep)
    behind _ _ [] _ outs₂ ⟨0, hsame ▸ hadded⟩ hkept hbehind
  rw [List.append_assoc] at hend
  exact hend.rounds

/-- A schedule of 20 ms for two times, added after the dispatch of the tick 0 and next to another. -/
theorem fires_at_exactly_its_due_ticks_twice : ∃ t out,
    runOps step new ([.worker] ++ .addTimeCall 20 (some 5) 2 ::
      .addTimeCall 10 (some 6) (-1) :: List.replicate 20 .worker) = some (t, out) ∧
      dispatches out.flatten = [(0, []), (1, [1]), (2, [0, 1]), (3, [1]), (4, [0, 1]), (5, [1]), (6, [1])] ∧
      ∀ R p, (dispatches out.flatten)[R]? = some p →
        p.1 = R % 2 ^ 32 ∧ p.2.count 0 ≤ 1 ∧
          (0 ∈ p.2 ↔ ∃ j : Nat, 1 ≤ j ∧ ((2 : Int) = -1 ∨ (j : Int) ≤ 2) ∧ R = 0 + j * 2) := by
  obtain ⟨⟨t₁, out₁⟩, hbefore, hnext, hticks⟩ :
      ∃ x, runOps step new [.worker] = some x ∧ x.1.next = 0 ∧ x.1.ticks = 0 := ⟨_, rfl, rfl, rfl⟩
  obtain ⟨⟨t, out⟩, hrun, hdispatches⟩ :
      ∃ x, runOps step new ([.worker] ++ .addTimeCall 20 (some 5) 2 ::
        .addTimeCall 10 (some 6) (-1) :: List.replicate 20 .worker) = some x ∧ dispatches x.2.flatten =
          [(0, []), (1, [1]), (2, [0, 1]), (3, [1]), (4, [0, 1]), (5, [1]), (6, [1])] := ⟨_, rfl, rfl⟩
  simp only at hnext hticks
  have hfires := fires_at_exactly_its_due_ticks _ _ 20 5 2 2 t₁ t out₁ out hbefore hrun (by decide) (by decide)
    (Or.inl (by decide)) (along_of_forall (fun a ha _ id hid => by subst hid; simp at ha) _)
  rw [hnext, hticks] at hfires
  exact ⟨t, out, hrun, hdispatches, hfires⟩

end Libws.Core.Timer
