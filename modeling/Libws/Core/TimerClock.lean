import Libws.Core.TimerPlaced

/-!
# The worker and the clock

`timerProc` with its readings of the steady clock: an iteration reads the clock, makes up for every whole
interval since `lastTime` by one round each, and sleeps.  Other threads call at any time.

* `Clocked`, `clockStep` — the machine; a step of it is one of the timer, or none (`clockStep_timer`);
* `Paced` — how the rounds are related to the readings since a state in which the worker sleeps;
* `Single` — a one-shot that was added then is taken by one round, if it is not removed before;
* `never_early_iff` — when the iteration that takes it is not too early.
-/

set_option autoImplicit false

namespace Libws.Core.Timer

open Libws.Machine Libws.Trace

/-- `MIN_INTERVAL` in nanoseconds, the unit of the steady clock. -/
def CLOCK_INTERVAL : Int := 10000000

structure Clocked where
  timer : Timer
  /-- `lastTime`, once `timerProc` has set it -/
  lastTime : Option Int
  /-- the time of the last step -/
  clock : Int
  /-- `now` of the current iteration -/
  now : Int
  /-- the rounds that are left in it -/
  todo : Nat

inductive ClockAction where
  /-- the worker reads the clock: for `lastTime` first, then for an iteration -/
  | wake (now : Int)
  /-- the next step of a round -/
  | round
  /-- another thread calls -/
  | call (time : Int) (action : Action)

def Clocked.new (start : Int) : Clocked :=
  { timer := Timer.new, lastTime := none, clock := start, now := start, todo := 0 }

/-- Each step returns the reading that it belongs to, and the events of the timer.  The counter of the rounds
    is an `int`: one that would overflow is not defined. -/
def clockStep (c : Clocked) : ClockAction → Option (Clocked × (Int × List Event))
  | .wake now =>
    if c.clock ≤ now ∧ c.todo = 0 then
      match c.lastTime with
      | none => some ({ c with lastTime := some now, clock := now, now := now }, (now, []))
      | some lastTime =>
        let delta := (now - lastTime).tdiv CLOCK_INTERVAL
        if delta < 2 ^ 31 then
          some ({ c with lastTime := some (lastTime + delta * CLOCK_INTERVAL), clock := now, now := now,
                         todo := delta.toNat }, (now, []))
        else none
    else none
  | .round =>
    if c.todo = 0 then none
    else
      let next := c.timer.workerStep
      let todo := if c.timer.phase = .expand then c.todo - 1 else c.todo
      some ({ c with timer := next.1, todo := todo }, (c.now, next.2))
  | .call time action =>
    if action = .worker ∨ time < c.clock then none
    else (c.timer.step action).map fun next => ({ c with timer := next.1, clock := time }, (time, next.2))

/-- The rounds of a run, each with the reading of its iteration. -/
def log (out : List (Int × List Event)) : List (Int × Nat × List Nat) :=
  out.flatMap fun o => (dispatches o.2).map (o.1, ·)

/-- What a clocked step does to the timer. -/
def toAction : ClockAction → Option Action
  | .wake _ => none
  | .round => some .worker
  | .call _ action => some action

theorem clockStep_timer {c c' : Clocked} {a : ClockAction} {o : Int × List Event}
    (h : clockStep c a = some (c', o)) : match toAction a with
    | none => c'.timer = c.timer ∧ o.2 = []
    | some action => c.timer.step action = some (c'.timer, o.2) := by
  cases a with
  | wake now =>
    simp only [clockStep] at h
    split at h
    · split at h
      · cases h
        exact ⟨rfl, rfl⟩
      · split at h
        · cases h
          exact ⟨rfl, rfl⟩
        · cases h
    · cases h
  | round =>
    simp only [clockStep] at h
    split at h <;> cases h
    rfl
  | call time action =>
    simp only [clockStep] at h
    split at h
    · cases h
    · obtain ⟨next, hnext, hc⟩ := Option.map_eq_some_iff.mp h
      cases hc
      exact hnext

theorem log_concat (out : List (Int × List Event)) (o : Int × List Event) :
    log (out ++ [o]) = log out ++ (dispatches o.2).map (o.1, ·) := by
  rw [log, List.flatMap_append, List.flatMap_singleton]
  rfl

theorem log_rounds (out : List (Int × List Event)) (o : Int × List Event) :
    (log (out ++ [o])).map Prod.snd = (log out).map Prod.snd ++ dispatches o.2 := by
  rw [log_concat, List.map_append, List.map_map]
  exact congrArg (_ ++ ·) (List.map_id _)

/-- The rounds of a clocked run are those of the timer. -/
theorem clockStep_clock {c c' : Clocked} {a : ClockAction} {o : Int × List Event} {history : List (Nat × List Nat)}
    (hclock : Clock c.timer history) (h : clockStep c a = some (c', o)) :
    Clock c'.timer (history ++ dispatches o.2) := by
  have htimer := clockStep_timer h
  split at htimer
  · obtain ⟨htimer, hevents⟩ := htimer
    rw [htimer, hevents]
    exact (List.append_nil history).symm ▸ hclock
  · exact step_clock hclock _ htimer

/-! ## One item -/

/-- The step does not remove the item. -/
def ClockKeeps (item : Nat) (c : Clocked) (a : ClockAction) : Prop :=
  ∀ action, toAction a = some action → Keeps item c.timer action

/-- The one-shot is taken by the round `D` or by none. -/
structure Single (item D n T : Nat) (t : Timer) (history : List (Nat × List Nat)) : Prop where
  clock : Clock t history
  known : item < t.next
  only : ∀ (R : Nat) p, history[R]? = some p → item ∈ p.2 → R = D ∧ n < 2 ^ 32
  waits : Gone t item ∨ n < 2 ^ 32 ∧ ∃ m, Fired item T n 1 t history m

theorem Single.gone {item D n T : Nat} {t t' : Timer} {history : List (Nat × List Nat)} {events : List Event}
    (h : Single item D n T t history) (hgone : Gone t' item) (hknown : item < t'.next)
    (hclock : Clock t' (history ++ dispatches events)) (hnot : ∀ p ∈ dispatches events, item ∉ p.2) :
    Single item D n T t' (history ++ dispatches events) := by
  refine ⟨hclock, hknown, fun R p hp hmem => ?_, Or.inl hgone⟩
  rw [List.getElem?_append] at hp
  split at hp
  · exact h.only R p hp hmem
  · exact absurd hmem (hnot p (List.mem_of_getElem? hp))

theorem step_single {item n T : Nat} {t t' : Timer} {history : List (Nat × List Nat)} {events : List Event}
    (hn : 1 ≤ n) (h : Single item (T + n) n T t history) (action : Action)
    (hstep : t.step action = some (t', events)) :
    Single item (T + n) n T t' (history ++ dispatches events) := by
  have hclock' := step_clock h.clock action hstep
  rcases h.waits with hgone | ⟨hlt, m, hfired⟩
  · obtain ⟨hgone', hknown', hnot⟩ := step_gone hgone h.known action hstep
    exact h.gone hgone' hknown' hclock' hnot
  · by_cases hremove : ∃ id, action = .remove id ∧ t.scheduleList id = some item
    · obtain ⟨id, rfl, hid⟩ := hremove
      obtain ⟨hlists, hnone⟩ := call_lists (.remove id) (fun hne => by cases hne) (Or.inr h.known) hstep
      cases hstep
      exact h.gone (remove_gone hid) (Nat.lt_of_lt_of_le h.known hlists.next) hclock' (fun p hp => by cases hp)
    · obtain ⟨m', hfired'⟩ := step_fired hlt (Or.inl hn) (Or.inr (by decide)) hfired action
        (fun id hid hfound => hremove ⟨id, hid, hfound⟩) hstep
      refine ⟨hclock', hfired'.known, fun R p hp hmem => ?_, Or.inr ⟨hlt, m', hfired'⟩⟩
      obtain ⟨j, hj, hj', hR⟩ := ((hfired'.rounds R p hp).2.2).mp hmem
      obtain rfl : j = 1 := by omega
      exact ⟨by omega, hlt⟩

/-! ## Readings and rounds -/

/-- The rounds of the current iteration that are still to be dispatched. -/
def pending (c : Clocked) : Nat := if c.timer.phase = .dispatch then c.todo else c.todo - 1

/-- In the middle of a round there is one to be done. -/
def Busy (c : Clocked) : Prop := c.timer.phase ≠ .dispatch → 0 < c.todo

/-- While the worker sleeps, no round is begun. -/
theorem Busy.asleep {c : Clocked} (h : Busy c) (hasleep : c.todo = 0) :
    c.timer.phase = .dispatch ∧ pending c = 0 := by
  have hphase : c.timer.phase = .dispatch := Decidable.byContradiction fun hne => by
    have hpos := h hne
    omega
  exact ⟨hphase, by rw [pending, if_pos hphase, hasleep]⟩

/-- The readings among the actions. -/
def readings (actions : List ClockAction) : List Int :=
  actions.filterMap fun
    | .wake now => some now
    | _ => none

theorem mem_readings {actions : List ClockAction} {now : Int} : now ∈ readings actions ↔ .wake now ∈ actions := by
  unfold readings
  rw [List.mem_filterMap]
  constructor
  · rintro ⟨a, ha, hnow⟩
    cases a <;> cases hnow
    exact ha
  · exact fun h => ⟨_, h, rfl⟩

/-- What has happened since a state in which the worker slept, `lastTime` was `L` and the round `T` was the next:
    the `k`-th round from there on belongs to the first reading that is `k + 1` intervals behind `L`. -/
structure Paced (L : Int) (T : Nat) (c : Clocked) (wakes : List Int) (rounds : List (Int × Nat × List Nat)) :
    Prop where
  busy : Busy c
  done : T + rounds.length = c.timer.nextDispatch
  lastTime : c.lastTime = some (L + (rounds.length + pending c) * CLOCK_INTERVAL)
  behind : L + (rounds.length + pending c) * CLOCK_INTERVAL ≤ c.clock
  reading : c.todo = 0 ∨ c.now ∈ wakes ∧ L + (rounds.length + pending c) * CLOCK_INTERVAL ≤ c.now
  past : ∀ w ∈ wakes, w ≤ c.clock ∧ w < L + (rounds.length + pending c + 1) * CLOCK_INTERVAL ∧
    (w = c.now ∨ w < L + (rounds.length + 1) * CLOCK_INTERVAL)
  first : ∀ (k : Nat) e, rounds[k]? = some e →
    e.1 ∈ wakes ∧ L + (k + 1) * CLOCK_INTERVAL ≤ e.1 ∧ ∀ w ∈ wakes, L + (k + 1) * CLOCK_INTERVAL ≤ w → e.1 ≤ w

section

variable {L : Int} {T : Nat} {c c' : Clocked} {wakes : List Int} {rounds : List (Int × Nat × List Nat)}

/-- A step that reads no clock for the worker and dispatches nothing. -/
theorem Paced.same (h : Paced L T c wakes rounds) (hbusy : Busy c')
    (hN : c'.timer.nextDispatch = c.timer.nextDispatch) (hpending : pending c' = pending c)
    (hlast : c'.lastTime = c.lastTime) (hclock : c.clock ≤ c'.clock) (hnow : c'.now = c.now)
    (htodo : c.todo = 0 → c'.todo = 0) : Paced L T c' wakes rounds := by
  refine ⟨hbusy, by rw [hN]; exact h.done, by rw [hpending, hlast]; exact h.lastTime, ?_, ?_, ?_, h.first⟩
  · rw [hpending]
    exact Int.le_trans h.behind hclock
  · rw [hpending, hnow]
    exact h.reading.imp_left htodo
  · intro w hw
    rw [hpending, hnow]
    obtain ⟨hle, hpast⟩ := h.past w hw
    exact ⟨Int.le_trans hle hclock, hpast⟩

theorem Paced.wake (h : Paced L T c wakes rounds) {now : Int} {o : Int × List Event}
    (hstep : clockStep c (.wake now) = some (c', o)) : Paced L T c' (wakes ++ [now]) rounds := by
  simp only [clockStep, h.lastTime] at hstep
  split at hstep
  · rename_i hguard
    obtain ⟨hle, hidle⟩ := hguard
    obtain ⟨hphase, hzero⟩ := h.busy.asleep hidle
    have hbehind := h.behind
    have hpast := h.past
    have hfirst := h.first
    rw [hzero] at hstep hbehind hpast
    have hnonneg : 0 ≤ now - (L + (rounds.length + (0 : Nat)) * CLOCK_INTERVAL) := by omega
    rw [Int.tdiv_eq_ediv_of_nonneg hnonneg] at hstep
    split at hstep
    · cases hstep
      generalize hdelta : (now - (L + (rounds.length + (0 : Nat)) * CLOCK_INTERVAL)) / CLOCK_INTERVAL = delta at *
      have hpending : pending { c with
          lastTime := some (L + (rounds.length + (0 : Nat)) * CLOCK_INTERVAL + delta * CLOCK_INTERVAL)
          clock := now, now := now, todo := delta.toNat } = delta.toNat := if_pos hphase
      unfold CLOCK_INTERVAL at hdelta hbehind hpast hfirst hnonneg
      refine ⟨fun hne => absurd hphase hne, h.done, ?_, ?_, ?_, fun w hw => ?_, fun k e hk => ?_⟩
      · rw [hpending]
        unfold CLOCK_INTERVAL
        exact congrArg some (by omega)
      · rw [hpending]
        unfold CLOCK_INTERVAL
        simp only
        omega
      · rw [hpending]
        unfold CLOCK_INTERVAL
        exact Or.inr ⟨List.mem_append_right _ (List.mem_singleton_self now), by simp only; omega⟩
      · rw [hpending]
        unfold CLOCK_INTERVAL
        simp only
        rcases List.mem_append.mp hw with hw | hw
        · obtain ⟨hwle, hwlt, -⟩ := hpast w hw
          exact ⟨by omega, by omega, Or.inr (by omega)⟩
        · obtain rfl := List.mem_singleton.mp hw
          exact ⟨by omega, by omega, Or.inl rfl⟩
      · obtain ⟨hmem, hge, hmin⟩ := h.first k e hk
        refine ⟨List.mem_append_left _ hmem, hge, fun w hw hwge => ?_⟩
        rcases List.mem_append.mp hw with hw | hw
        · exact hmin w hw hwge
        · obtain rfl := List.mem_singleton.mp hw
          exact Int.le_trans (h.past e.1 hmem).1 hle
    · cases hstep
  · cases hstep

theorem Paced.dispatched (h : Paced L T c wakes rounds) {history : List (Nat × List Nat)}
    (hclock : Clock c.timer history)
    (hphase : c.timer.phase = .dispatch) (htodo : c.todo ≠ 0) (p : Nat × List Nat) :
    Paced L T { c with timer := { c.timer.dispatch with phase := .tick } } wakes (rounds ++ [(c.now, p)]) := by
  obtain ⟨hticks, -⟩ := hclock.dispatch_ticks
  have hN : c.timer.nextDispatch = c.timer.ticks := by rw [nextDispatch, hphase]
  have hbefore : pending c = c.todo := if_pos hphase
  have hafter : pending { c with timer := { c.timer.dispatch with phase := .tick } } = c.todo - 1 :=
    if_neg (by simp)
  have hlength : (rounds ++ [(c.now, p)]).length = rounds.length + 1 := by
    rw [List.length_append, List.length_singleton]
  have hsum : ((rounds ++ [(c.now, p)]).length : Int) +
      pending { c with timer := { c.timer.dispatch with phase := .tick } } = rounds.length + pending c := by
    rw [hlength, hafter, hbefore]
    omega
  obtain ⟨hnow, hreading⟩ := h.reading.resolve_left htodo
  refine ⟨fun _ => Nat.pos_of_ne_zero htodo, ?_, by rw [hsum]; exact h.lastTime, by rw [hsum]; exact h.behind,
    Or.inr ⟨hnow, by rw [hsum]; exact hreading⟩, fun w hw => ?_, fun k e hk => ?_⟩
  · rw [hlength, ← Nat.add_assoc, h.done, hN]
    exact congrArg (· + 1) hticks.symm
  · obtain ⟨hle, hlt, hcase⟩ := h.past w hw
    rw [hsum, hlength]
    refine ⟨hle, hlt, hcase.imp_right fun hearlier => ?_⟩
    unfold CLOCK_INTERVAL at hearlier ⊢
    omega
  · rcases getElem?_concat hk with ⟨-, hold⟩ | ⟨rfl, rfl⟩
    · exact h.first k e hold
    · refine ⟨hnow, ?_, fun w hw hge => ?_⟩
      · rw [hbefore] at hreading
        unfold CLOCK_INTERVAL at hreading ⊢
        simp only
        omega
      · rcases (h.past w hw).2.2 with rfl | hearlier
        · exact Int.le_refl _
        · exact absurd hge (Int.not_le.mpr hearlier)

/-- **One step** of the clocked machine. -/
theorem step_paced {history : List (Nat × List Nat)} (hclock : Clock c.timer history) (h : Paced L T c wakes rounds)
    (a : ClockAction) {o : Int × List Event} (hstep : clockStep c a = some (c', o)) :
    Paced L T c' (wakes ++ readings [a]) (rounds ++ (dispatches o.2).map (o.1, ·)) := by
  cases a with
  | wake now =>
    have hnone : dispatches o.2 = [] := by rw [(clockStep_timer hstep).2]; rfl
    rw [hnone, List.map_nil, List.append_nil]
    exact h.wake hstep
  | round =>
    rw [show readings [ClockAction.round] = [] from rfl, List.append_nil]
    simp only [clockStep] at hstep
    split at hstep
    · cases hstep
    rename_i htodo
    cases hstep
    unfold workerStep
    cases hphase : c.timer.phase with
    | dispatch =>
      simp only [reduceCtorEq, if_false]
      exact h.dispatched hclock hphase htodo _
    | tick =>
      simp only [reduceCtorEq, if_false, show dispatches [] = [] from rfl, List.map_nil, List.append_nil]
      refine h.same (fun _ => Nat.pos_of_ne_zero htodo) ?_ ?_ rfl (Int.le_refl _) rfl id
      · rw [nextDispatch, nextDispatch, hphase]
      · rw [pending, pending, hphase, if_neg (by simp), if_neg (by simp)]
    | expand =>
      simp only [if_true, show dispatches [] = [] from rfl, List.map_nil, List.append_nil]
      refine h.same (fun hne => absurd rfl hne) ?_ ?_ rfl (Int.le_refl _) rfl fun hzero => absurd hzero htodo
      · rw [nextDispatch, nextDispatch, hphase, expand_only c.timer]
      · rw [pending, pending, hphase, if_pos rfl, if_neg (by simp)]
  | call time action =>
    rw [show readings [ClockAction.call time action] = [] from rfl, List.append_nil]
    have htimer : c.timer.step action = some (c'.timer, o.2) := clockStep_timer hstep
    simp only [clockStep] at hstep
    split at hstep
    · cases hstep
    rename_i hguard
    obtain ⟨hworker, htime⟩ := not_or.mp hguard
    obtain ⟨next, -, hc⟩ := Option.map_eq_some_iff.mp hstep
    cases hc
    obtain ⟨hlists, hnone⟩ := call_lists action hworker (Or.inl (Nat.le_refl _)) htimer
    obtain ⟨hN, -⟩ := nextDispatch_eq hlists.ticks hlists.phase
    rw [hnone, List.map_nil, List.append_nil]
    refine h.same ?_ hN ?_ rfl (Int.not_lt.mp htime) rfl id
    · unfold Busy
      rw [hlists.phase]
      exact h.busy
    · unfold pending
      rw [hlists.phase]

end

/-! ## Runs -/

/-- What holds in every state, also before `timerProc` has set `lastTime`. -/
structure Ticking (c : Clocked) (history : List (Nat × List Nat)) : Prop where
  clock : Clock c.timer history
  busy : Busy c
  lastTime_le : ∀ L, c.lastTime = some L → L ≤ c.clock

theorem step_ticking {c c' : Clocked} {history : List (Nat × List Nat)} (h : Ticking c history) (a : ClockAction)
    {o : Int × List Event} (hstep : clockStep c a = some (c', o)) : Ticking c' (history ++ dispatches o.2) := by
  have hclock := clockStep_clock h.clock hstep
  cases a with
  | wake now =>
    simp only [clockStep] at hstep
    split at hstep
    · rename_i hguard
      split at hstep
      · cases hstep
        exact ⟨hclock, h.busy, fun L hL => Int.le_of_eq (Option.some.inj hL).symm⟩
      · rename_i L hL
        have hle : L ≤ now := Int.le_trans (h.lastTime_le L hL) hguard.1
        rw [Int.tdiv_eq_ediv_of_nonneg (by omega)] at hstep
        split at hstep
        · cases hstep
          refine ⟨hclock, fun hne => ?_, fun L' hL' => ?_⟩
          · have hpos := h.busy hne
            omega
          · obtain rfl := Option.some.inj hL'
            show L + (now - L) / CLOCK_INTERVAL * CLOCK_INTERVAL ≤ now
            unfold CLOCK_INTERVAL
            omega
        · cases hstep
    · cases hstep
  | round =>
    simp only [clockStep] at hstep
    split at hstep
    · cases hstep
    rename_i htodo
    cases hstep
    refine ⟨hclock, fun hne => ?_, h.lastTime_le⟩
    unfold workerStep at hne
    cases hphase : c.timer.phase with
    | dispatch | tick => simpa using Nat.pos_of_ne_zero htodo
    | expand =>
      rw [hphase] at hne
      exact absurd rfl hne
  | call time action =>
    have htimer : c.timer.step action = some (c'.timer, o.2) := clockStep_timer hstep
    simp only [clockStep] at hstep
    split at hstep
    · cases hstep
    rename_i hguard
    obtain ⟨hworker, htime⟩ := not_or.mp hguard
    obtain ⟨next, -, hc⟩ := Option.map_eq_some_iff.mp hstep
    cases hc
    obtain ⟨hlists, -⟩ := call_lists action hworker (Or.inl (Nat.le_refl _)) htimer
    refine ⟨hclock, ?_, fun L hL => Int.le_trans (h.lastTime_le L hL) (Int.not_lt.mp htime)⟩
    unfold Busy
    rw [hlists.phase]
    exact h.busy

/-- No round that takes the item belongs to a reading before `deadline`. -/
def InTime (item : Nat) (deadline : Int) (rounds : List (Int × Nat × List Nat)) : Prop :=
  ∀ e ∈ rounds, item ∈ e.2.2 → deadline ≤ e.1

/-- The one-shot of `n` intervals that is added while the worker sleeps. -/
theorem addTimeCall_single {t : Timer} {history : List (Nat × List Nat)} (h : Clock t history) (n callback : Nat)
    (hn : 1 ≤ n) :
    Single t.next (t.ticks + n) n t.ticks (t.addTimeCall (10 * n) (some callback) 1).1 history ∧
      (n < 2 ^ 32 → Fired t.next t.ticks n 1 (t.addTimeCall (10 * n) (some callback) 1).1 history 0) := by
  have hclock := step_clock h (.addTimeCall (10 * n) (some callback) 1) rfl
  rw [show dispatches [Event.returned _] = [] from rfl, List.append_nil] at hclock
  have hdelay : delay (10 * n) = n := Int.mul_tdiv_cancel_left _ (by decide)
  have hfired := fun hlt => addTimeCall_fired callback h hdelay hlt (Or.inl ⟨hn, Or.inr (by decide)⟩) hclock
  obtain ⟨habsent, hnot⟩ := h.fresh t.next (Nat.le_refl _)
  have haccepted : Accepted (10 * n) (some callback) 1 := ⟨rfl, by decide, Or.inl rfl⟩
  obtain ⟨-, -, hnext⟩ := insert_clock (t.allocated (10 * n) (some callback) 1) t.next
  refine ⟨⟨hclock, ?_, fun R p hp hmem => absurd hmem (hnot p (List.mem_of_getElem? hp)), ?_⟩, hfired⟩
  · rw [addTimeCall_accepted haccepted]
    show t.next < ((t.allocated (10 * n) (some callback) 1).insert t.next).next
    rw [hnext]
    exact Nat.lt_succ_self _
  · by_cases hlt : n < 2 ^ 32
    · exact Or.inr ⟨hlt, 0, hfired hlt⟩
    · refine Or.inl (Or.inr fun s => ?_)
      rw [addTimeCall_accepted haccepted, insert_none (by rw [allocated_heap]; show (2 : Int) ^ 32 ≤ delay (10 * n); omega)]
      exact habsent s

theorem Ticking.paced {c : Clocked} {history : List (Nat × List Nat)} {L : Int} (h : Ticking c history)
    (hasleep : c.todo = 0) (hlast : c.lastTime = some L) : Paced L c.timer.ticks c [] [] := by
  obtain ⟨hphase, hpending⟩ := h.busy.asleep hasleep
  refine ⟨h.busy, ?_, ?_, ?_, Or.inl hasleep, fun w hw => absurd hw List.not_mem_nil, fun k e hk => by cases hk⟩
  · rw [nextDispatch, hphase]
    rfl
  · rw [hlast, hpending, List.length_nil]
    exact congrArg some (by omega)
  · have hle := h.lastTime_le L hlast
    rw [hpending, List.length_nil]
    omega

/-- **A whole run** from where the worker slept. -/
theorem run_paced {L : Int} {T item n : Nat} {c c' : Clocked} {history : List (Nat × List Nat)} (hn : 1 ≤ n)
    (hpaced : Paced L T c [] []) (hsingle : Single item (T + n) n T c.timer history) {actions : List ClockAction}
    {out : List (Int × List Event)} (hrun : runOps clockStep c actions = some (c', out)) :
    Paced L T c' (readings actions) (log out) ∧
      Single item (T + n) n T c'.timer (history ++ (log out).map Prod.snd) := by
  refine runOps_inv
    (fun s is rs => Paced L T s (readings is) (log rs) ∧
      Single item (T + n) n T s.timer (history ++ (log rs).map Prod.snd))
    (fun s is rs i s' r ⟨hp, hs⟩ hstep => ?_) ⟨hpaced, (List.append_nil history).symm ▸ hsingle⟩ hrun
  have hreadings : readings (is ++ [i]) = readings is ++ readings [i] := List.filterMap_append ..
  rw [log_rounds, hreadings, ← List.append_assoc, log_concat]
  refine ⟨step_paced hs.clock hp i hstep, ?_⟩
  have htimer := clockStep_timer hstep
  split at htimer
  · obtain ⟨htimer, hnone⟩ := htimer
    rw [htimer, hnone]
    exact (List.append_nil _).symm ▸ hs
  · exact step_single hn hs _ htimer

/-- A run that does not remove the one-shot takes it in its round. -/
theorem run_fired {T item n : Nat} {c c' : Clocked} {history : List (Nat × List Nat)} (hn : 1 ≤ n)
    (hlt : n < 2 ^ 32)
    (hfired : Fired item T n 1 c.timer history 0) {actions : List ClockAction} {out : List (Int × List Event)}
    (hkept : Along clockStep (ClockKeeps item) c actions) (hrun : runOps clockStep c actions = some (c', out)) :
    ∃ m, Fired item T n 1 c'.timer (history ++ (log out).map Prod.snd) m := by
  refine runOps_trace (fun s _ rs => ∃ m, Fired item T n 1 s.timer (history ++ (log rs).map Prod.snd) m)
    (fun s is rs i s' r ⟨m, hm⟩ hok hstep => ?_) actions c c' [] [] out
    ⟨0, (List.append_nil history).symm ▸ hfired⟩ hkept hrun
  rw [log_rounds, ← List.append_assoc]
  have htimer := clockStep_timer hstep
  split at htimer
  · obtain ⟨htimer, hnone⟩ := htimer
    rw [htimer, hnone]
    exact ⟨m, (List.append_nil _).symm ▸ hm⟩
  · rename_i action haction
    exact step_fired hlt (Or.inl hn) (Or.inr (by decide)) hm action (hok action haction) htimer

/-- **When a one-shot does not fire early in real time.**  It is added at `time`, while the worker sleeps and its
`lastTime` is `L`: it is in time if no later reading is so late that the round is made up for, and still before
the time of the one-shot.  If it is not removed, and the worker has come to sleep again, that is needed. -/
theorem never_early_iff (before behind : List ClockAction) (start : Int) (c₁ c₂ c : Clocked)
    (out₁ out : List (Int × List Event)) (o : Int × List Event) (L time : Int) (n callback : Nat)
    (hbefore : runOps clockStep (Clocked.new start) before = some (c₁, out₁)) (hasleep : c₁.todo = 0)
    (hlast : c₁.lastTime = some L) (hn : 1 ≤ n)
    (hadd : clockStep c₁ (.call time (.addTimeCall (10 * n) (some callback) 1)) = some (c₂, o))
    (hrun : runOps clockStep c₂ behind = some (c, out)) :
    ((2 ^ 32 ≤ n ∨ ∀ now, .wake now ∈ behind → L + (n + 1) * CLOCK_INTERVAL ≤ now →
      time + n * CLOCK_INTERVAL ≤ now) →
        InTime c₁.timer.next (time + n * CLOCK_INTERVAL) (log out)) ∧
      (Along clockStep (ClockKeeps c₁.timer.next) c₂ behind → c.todo = 0 →
        InTime c₁.timer.next (time + n * CLOCK_INTERVAL) (log out) →
        2 ^ 32 ≤ n ∨ ∀ now, .wake now ∈ behind → L + (n + 1) * CLOCK_INTERVAL ≤ now →
          time + n * CLOCK_INTERVAL ≤ now) := by
  have hticking : Ticking c₁ ((log out₁).map Prod.snd) :=
    runOps_inv (fun s _ rs => Ticking s ((log rs).map Prod.snd))
      (fun s _ rs i s' r h hstep => by rw [log_rounds]; exact step_ticking h i hstep)
      ⟨new_clock, fun hne => absurd rfl hne, fun L hL => by cases hL⟩ hbefore
  generalize (log out₁).map Prod.snd = history at hticking
  have hlength : history.length = c₁.timer.ticks := by
    rw [hticking.clock.rounds, nextDispatch, (hticking.busy.asleep hasleep).1]
  have hpaced₂ := step_paced hticking.clock (hticking.paced hasleep hlast) _ hadd
  -- the call
  have hcall : c₁.timer.step (.addTimeCall (10 * n) (some callback) 1) = some (c₂.timer, o.2) :=
    clockStep_timer hadd
  obtain ⟨htimer, hevents⟩ := Prod.mk.inj (Option.some.inj hcall)
  have hnone : dispatches o.2 = [] := by rw [← hevents]; rfl
  rw [hnone, List.map_nil, List.append_nil, show [] ++ readings _ = [] from rfl] at hpaced₂
  obtain ⟨hsingle₂, hfired₂⟩ := addTimeCall_single hticking.clock n callback hn
  rw [htimer] at hsingle₂ hfired₂
  -- the run behind it
  obtain ⟨hpaced, hsingle⟩ := run_paced hn hpaced₂ hsingle₂ hrun
  have hround : ∀ (k : Nat) e, (log out)[k]? = some e →
      (history ++ (log out).map Prod.snd)[c₁.timer.ticks + k]? = some e.2 := fun k e hk => by
    rw [List.getElem?_append_right (by omega), hlength, Nat.add_sub_cancel_left, List.getElem?_map, hk]
    rfl
  refine ⟨fun hfit e he hmem => ?_, fun hkept hend hintime => ?_⟩
  · obtain ⟨k, hk⟩ := List.getElem?_of_mem he
    obtain ⟨hD, hlt⟩ := hsingle.only _ _ (hround k e hk) hmem
    obtain rfl : k = n := by omega
    obtain ⟨hwake, hge, -⟩ := hpaced.first k e hk
    exact hfit.resolve_left (by omega) e.1 (mem_readings.mp hwake) hge
  · refine or_iff_not_imp_left.mpr fun hlt now hwake hge => ?_
    obtain ⟨m, hfired⟩ := run_fired hn (by omega) (hfired₂ (by omega)) hkept hrun
    have hidle : pending c = 0 := by
      unfold pending
      split <;> omega
    obtain ⟨-, hmade, -⟩ := hpaced.past now (mem_readings.mpr hwake)
    rw [hidle] at hmade
    have hn' : n < (log out).length := by
      unfold CLOCK_INTERVAL at hmade hge
      omega
    have he : (log out)[n]? = some (log out)[n] := List.getElem?_eq_getElem hn'
    have hmem := ((hfired.rounds _ _ (hround n _ he)).2.2).mpr ⟨1, Nat.le_refl 1, Or.inr (by decide), by omega⟩
    exact Int.le_trans (hintime _ (List.getElem_mem hn') hmem)
      ((hpaced.first n _ he).2.2 now (mem_readings.mpr hwake) hge)

/-- A one-shot of 10 ms, added 5 ms after the reading that `lastTime` is from, and two rounds in one iteration. -/
theorem never_early_two_rounds : ∃ c₁ c₂ c out₁ o out,
    runOps clockStep (Clocked.new 0) [.wake 0, .wake 0] = some (c₁, out₁) ∧
      clockStep c₁ (.call 5000000 (.addTimeCall 10 (some 7) 1)) = some (c₂, o) ∧
      runOps clockStep c₂ (.wake 25000000 :: List.replicate 6 .round) = some (c, out) ∧
      log out = [(25000000, 0, []), (25000000, 1, [0])] ∧
      InTime c₁.timer.next (5000000 + (1 : Nat) * CLOCK_INTERVAL) (log out) := by
  obtain ⟨⟨c₁, out₁⟩, ⟨c₂, o⟩, ⟨c, out⟩, hbefore, hasleep, hlast, hadd, hrun, hlog⟩ : ∃ x y z,
      runOps clockStep (Clocked.new 0) [.wake 0, .wake 0] = some x ∧ x.1.todo = 0 ∧ x.1.lastTime = some 0 ∧
        clockStep x.1 (.call 5000000 (.addTimeCall (10 * (1 : Nat)) (some 7) 1)) = some y ∧
        runOps clockStep y.1 (.wake 25000000 :: List.replicate 6 .round) = some z ∧
        log z.2 = [(25000000, 0, []), (25000000, 1, [0])] := ⟨_, _, _, rfl, rfl, rfl, rfl, rfl, rfl⟩
  refine ⟨c₁, c₂, c, out₁, o, out, hbefore, hadd, hrun, hlog, ?_⟩
  refine (never_early_iff _ _ 0 c₁ c₂ c out₁ out o 0 5000000 1 7 hbefore hasleep hlast (by decide) hadd hrun).1
    (Or.inr fun now hnow _ => ?_)
  have hwake := mem_readings.mpr hnow
  rw [show readings (.wake 25000000 :: List.replicate 6 .round) = [25000000] from rfl] at hwake
  rw [List.mem_singleton.mp hwake]
  decide

/-- **The worker slept for 11 ms**: a one-shot of 10 ms that is added at 18 ms fires at 20 ms. -/
theorem fires_early : ¬ ∀ (before behind : List ClockAction) (start : Int) (c₁ c₂ c : Clocked)
    (out₁ out : List (Int × List Event)) (o : Int × List Event) (L time : Int) (n callback : Nat),
    runOps clockStep (Clocked.new start) before = some (c₁, out₁) → c₁.todo = 0 → c₁.lastTime = some L → 1 ≤ n →
      clockStep c₁ (.call time (.addTimeCall (10 * n) (some callback) 1)) = some (c₂, o) →
      runOps clockStep c₂ behind = some (c, out) →
      InTime c₁.timer.next (time + n * CLOCK_INTERVAL) (log out) := by
  intro hclaim
  have hintime := hclaim [.wake 0, .wake 9000000] (.wake 20000000 :: List.replicate 6 .round) 0 _ _ _ _ _ _ 0 18000000 1 7
    rfl rfl rfl (by decide) rfl rfl
  exact absurd (hintime (20000000, 1, [0]) (by decide) (by decide)) (by decide)

end Libws.Core.Timer
