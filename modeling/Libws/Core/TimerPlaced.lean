import Libws.Core.TimerRuns

/-!
# Where a new schedule is placed, and which round takes it first

* `allocated`, `addTimeCall_accepted` — an accepted call is one `insert` of a new schedule;
* `Coming` — the item is in one list of the wheel, for the tick `D`; `Awaited` — and so is the history of
  the run; one step keeps it (`step_awaited`) unless it removes the item;
* `firstDue` — the round that takes a new schedule first, for every delay that finds a level
  (`addTimeCall_coming`);
* `short_one_shot_iff`, `placed_iff` — when that is the round the delay asks for.
-/

set_option autoImplicit false

namespace Libws.Core.Timer

open Libws.Machine Libws.Trace

/-! ## Accepted calls -/

/-- The guard of `addTimeCall`. -/
def Accepted (interval : Int) (callback : Option Nat) (times : Int) : Prop :=
  callback.isSome ∧ times ≠ 0 ∧ (times = 1 ∨ interval ≥ MIN_INTERVAL)

instance (interval : Int) (callback : Option Nat) (times : Int) : Decidable (Accepted interval callback times) :=
  inferInstanceAs (Decidable (_ ∧ _ ∧ _))

/-- The timer with the new schedule, before `insert`. -/
def allocated (t : Timer) (interval : Int) (callback : Option Nat) (times : Int) : Timer :=
  { t.setSchedule t.next ⟨(t.lastID + 1) % 2 ^ 32, 0, times, interval, callback⟩ with
    next := t.next + 1, lastID := (t.lastID + 1) % 2 ^ 32 }

theorem allocated_heap (t : Timer) (interval : Int) (callback : Option Nat) (times : Int) :
    (t.allocated interval callback times).heap t.next = ⟨(t.lastID + 1) % 2 ^ 32, 0, times, interval, callback⟩ :=
  Function.update_self ..

theorem addTimeCall_accepted {t : Timer} {interval times : Int} {callback : Option Nat}
    (h : Accepted interval callback times) :
    t.addTimeCall interval callback times =
      ({ (t.allocated interval callback times).insert t.next with
          scheduleList := Function.update ((t.allocated interval callback times).insert t.next).scheduleList
            ((t.lastID + 1) % 2 ^ 32) (some t.next) }, (t.lastID + 1) % 2 ^ 32) := by
  unfold addTimeCall
  exact if_pos h

theorem addTimeCall_rejected {t : Timer} {interval times : Int} {callback : Option Nat}
    (h : ¬ Accepted interval callback times) : t.addTimeCall interval callback times = (t, 0) := by
  unfold addTimeCall
  exact if_neg h

/-- The delay in ticks, `interval / MIN_INTERVAL`. -/
def delay (interval : Int) : Int := interval.tdiv MIN_INTERVAL

theorem delay_short {interval : Int} (hlow : 0 ≤ interval) (hhigh : interval < 10) : delay interval = 0 := by
  unfold delay MIN_INTERVAL
  grind

/-- A short delay goes to a near list, also a negative one. -/
theorem insert_near {t : Timer} {item : Nat} (h : delay (t.heap item).interval < 256) :
    t.insert item =
      (t.indexed item).pushFront (.near (((t.ticks : Int) + delay (t.heap item).interval) % 256).toNat) item := by
  have hmask : (((t.tick : Int) + (t.heap item).interval.tdiv MIN_INTERVAL) % 2 ^ 32).toNat &&& NEAR_MASK =
      (((t.ticks : Int) + delay (t.heap item).interval) % 256).toNat := by
    rw [land_near, tick, delay]
    omega
  unfold insert
  simp only [hmask]
  exact if_pos h

/-- The loop of `insert` finds no level for a delay of `2 ^ 32` ticks or more. -/
theorem insertFar_none (t : Timer) (item : Nat) : ∀ (left level interval index : Nat), 64 ^ left ≤ interval →
    t.insertFar item left level interval index = t
  | 0, _, _, _, _ => rfl
  | left + 1, level, interval, index, h => by
    have h64 : 64 ^ left * 64 ≤ interval := Nat.pow_succ 64 left ▸ h
    have hpos : 1 ≤ 64 ^ left := Nat.one_le_pow _ _ (by decide)
    unfold insertFar FAR_FUTURE
    rw [if_neg (by omega), Nat.shiftRight_eq_div_pow]
    exact insertFar_none t item left (level + 1) _ _ (by omega)

theorem insert_none {t : Timer} {item : Nat} (h : 2 ^ 32 ≤ delay (t.heap item).interval) :
    t.insert item = t.indexed item := by
  have hfar : ¬ (t.heap item).interval.tdiv MIN_INTERVAL < (NEAR_FUTURE : Int) := by
    unfold delay at h
    unfold NEAR_FUTURE
    omega
  unfold insert
  simp only
  rw [if_neg hfar]
  refine insertFar_none _ _ _ _ _ _ ?_
  rw [Nat.shiftRight_eq_div_pow]
  unfold delay at h
  unfold NUM_FAR_WHEEL
  omega

/-! ## The first dispatch of an item -/

/-- The item is in one list of the wheel, for the tick `D`. -/
structure Coming (t : Timer) (item D : Nat) : Prop where
  remains : (t.heap item).remainTimes ≠ 0
  placed : ∃ slot, Place t.nextDispatch t.lastCarry D slot ∧ At t item slot ∧
    (slot = .near (D % 256) ∨ (t.heap item).index = D % 2 ^ 32)

/-- No round before `D` took the item, and the round `D` takes it. -/
structure Awaited (t : Timer) (history : List (Nat × List Nat)) (item D : Nat) : Prop where
  clock : Clock t history
  known : item < t.next
  rounds : ∀ R p, history[R]? = some p → (R < D → item ∉ p.2) ∧ (R = D → item ∈ p.2)
  coming : t.nextDispatch ≤ D → Coming t item D

theorem dispatch_awaited {t : Timer} {history : List (Nat × List Nat)} {item D : Nat}
    (h : Awaited t history item D) (hphase : t.phase = .dispatch)
    (hclock : Clock { t.dispatch with phase := .tick } (history ++ [(t.tick, t.pushed t.dispatch)])) :
    Awaited { t.dispatch with phase := .tick } (history ++ [(t.tick, t.pushed t.dispatch)]) item D := by
  obtain ⟨hticks, hnext⟩ := h.clock.dispatch_ticks
  have hN : t.nextDispatch = t.ticks := by rw [nextDispatch, hphase]
  have hE : t.lastCarry = t.ticks := by rw [lastCarry, hphase]
  have hN' : ({ t.dispatch with phase := .tick } : Timer).nextDispatch = t.ticks + 1 := congrArg (· + 1) hticks
  have hE' : ({ t.dispatch with phase := .tick } : Timer).lastCarry = t.ticks := hticks
  have hlength : history.length = t.ticks := by rw [h.clock.rounds, hN]
  -- it is enough to look at the round `t.ticks` and at what it leaves behind
  have hround : (t.ticks < D → item ∉ t.pushed t.dispatch) ∧ (t.ticks = D → item ∈ t.pushed t.dispatch) →
      (t.ticks + 1 ≤ D → Coming { t.dispatch with phase := .tick } item D) →
      Awaited { t.dispatch with phase := .tick } (history ++ [(t.tick, t.pushed t.dispatch)]) item D := by
    intro hnow hlater
    refine ⟨hclock, Nat.lt_of_lt_of_le h.known hnext, fun R p hp => ?_, by rw [hN']; exact hlater⟩
    rcases getElem?_concat hp with ⟨-, hold⟩ | ⟨rfl, rfl⟩
    · exact h.rounds R p hold
    · rw [hlength]
      exact hnow
  obtain hpast | rfl | hahead := Nat.lt_trichotomy D t.ticks
  · exact hround ⟨by omega, by omega⟩ (by omega)
  · obtain ⟨hremains, slot, hplace, hat, -⟩ := h.coming (by omega)
    rw [hN, hE] at hplace
    obtain rfl := hplace.current
    obtain ⟨-, -, -, -, -, hpushed⟩ := dispatch_split (hat _ |>.trans (if_pos rfl))
    rw [if_pos hremains] at hpushed
    exact hround ⟨by omega, fun _ => List.count_pos_iff.mp (by omega)⟩ (by omega)
  · obtain ⟨hremains, slot, hplace, hat, hindex⟩ := h.coming (by omega)
    rw [hN, hE] at hplace
    obtain ⟨hat', hheap, hcount⟩ := dispatch_elsewhere hat (hplace.not_current (by omega))
    refine hround ⟨fun _ => List.count_eq_zero.mp hcount, by omega⟩ fun _ => ⟨?_, slot, ?_, hat', ?_⟩
    · show (t.dispatch.heap item).remainTimes ≠ 0
      rw [hheap]
      exact hremains
    · rw [hN', hE']
      exact hplace.next (by omega)
    · show slot = _ ∨ (t.dispatch.heap item).index = _
      rw [hheap]
      exact hindex

theorem expand_awaited {t : Timer} {history : List (Nat × List Nat)} {item D : Nat}
    (h : Awaited t history item D) (hphase : t.phase = .expand)
    (hclock : Clock { t.expand with phase := .dispatch } history) :
    Awaited { t.expand with phase := .dispatch } history item D := by
  have honly := expand_only t
  have hticks : t.expand.ticks = t.ticks := by rw [honly]
  have hheap : t.expand.heap = t.heap := by rw [honly]
  have hN : t.nextDispatch = t.ticks := by rw [nextDispatch, hphase]
  have hE : t.lastCarry = t.ticks - 1 := by rw [lastCarry, hphase]
  have hN' : ({ t.expand with phase := .dispatch } : Timer).nextDispatch = t.ticks := hticks
  have hE' : ({ t.expand with phase := .dispatch } : Timer).lastCarry = t.ticks := hticks
  have hstarted := h.clock.started hphase
  refine ⟨hclock, by rw [honly]; exact h.known, h.rounds, fun hD => ?_⟩
  rw [hN'] at hD
  obtain ⟨hremains, slot, hplace, hat, hindex⟩ := h.coming (by omega)
  rw [hN, hE] at hplace
  obtain ⟨slot', hsame, hplace', hat'⟩ := expand_at (by omega) hindex hplace hat
  refine ⟨?_, slot', by rw [hN', hE']; exact hplace', hat', ?_⟩
  · show (t.expand.heap item).remainTimes ≠ 0
    rw [hheap]
    exact hremains
  · show slot' = _ ∨ (t.expand.heap item).index = _
    rw [hheap]
    exact hindex.imp_left fun hnear => (hsame hnear).trans hnear

/-- **One step** keeps the item waiting for the round `D`, or is the dispatch that takes it. -/
theorem step_awaited {t t' : Timer} {history : List (Nat × List Nat)} {item D : Nat} {events : List Event}
    (h : Awaited t history item D) (action : Action)
    (hkept : ∀ id, action = .remove id → t.scheduleList id ≠ some item)
    (hstep : t.step action = some (t', events)) : Awaited t' (history ++ dispatches events) item D := by
  have hclock' := step_clock h.clock action hstep
  by_cases hworker : action = .worker
  · subst hworker
    cases step_cases hstep with
    | dispatch hphase => exact dispatch_awaited h hphase hclock'
    | tick hphase =>
      rw [show dispatches [] = [] from rfl, List.append_nil] at hclock' ⊢
      refine ⟨hclock', h.known, h.rounds, fun hD => ?_⟩
      have hN : t.nextDispatch = t.ticks + 1 := by rw [nextDispatch, hphase]
      have hE : t.lastCarry = t.ticks + 1 - 1 := by rw [lastCarry, hphase]; rfl
      obtain ⟨hremains, slot, hplace, hat, hindex⟩ := h.coming (hN ▸ hD)
      rw [hN, hE] at hplace
      exact ⟨hremains, slot, hplace, hat, hindex⟩
    | expand hphase =>
      rw [show dispatches [] = [] from rfl, List.append_nil] at hclock' ⊢
      exact expand_awaited h hphase hclock'
  · obtain ⟨hlists, hnone⟩ := call_lists action hworker (Or.inr h.known) hstep
    obtain ⟨hN, hE⟩ := nextDispatch_eq hlists.ticks hlists.phase
    have hheap := call_heap action hworker h.known hkept hstep
    rw [hnone, List.append_nil] at hclock' ⊢
    refine ⟨hclock', Nat.lt_of_lt_of_le h.known hlists.next, h.rounds, fun hD => ?_⟩
    obtain ⟨hremains, slot, hplace, hat, hindex⟩ := h.coming (hN ▸ hD)
    refine ⟨by rw [hheap]; exact hremains, slot, by rw [hN, hE]; exact hplace, fun s => ?_, by rw [hheap]; exact hindex⟩
    rw [hlists.wheel]
    exact hat s

/-! ## The round that takes a new schedule first -/

/-- The first round that takes a schedule whose delay is `n` ticks: for a delay that is not positive, the next
    one that reads its near list. -/
def firstDue (t : Timer) (n : Int) : Nat :=
  if 1 ≤ n then t.ticks + n.toNat else t.nextDispatch + (((t.ticks : Int) + n - t.nextDispatch) % 256).toNat

theorem window (t : Timer) : t.lastCarry ≤ t.ticks ∧ t.ticks ≤ t.lastCarry + 1 ∧ t.ticks ≤ t.nextDispatch ∧
    t.nextDispatch ≤ t.ticks + 1 := by
  cases hphase : t.phase <;> simp only [nextDispatch, lastCarry, hphase] <;> omega

theorem nextDispatch_le_firstDue (t : Timer) (n : Int) : t.nextDispatch ≤ t.firstDue n := by
  obtain ⟨-, -, -, hnext⟩ := window t
  unfold firstDue
  split <;> omega

/-- `insert` puts the item in a place of its first due tick. -/
theorem insert_firstDue (t : Timer) (item : Nat) (hn : delay (t.heap item).interval < 2 ^ 32) :
    ∃ slot, Place t.nextDispatch t.lastCarry (t.firstDue (delay (t.heap item).interval)) slot ∧
      (∀ s, ((t.insert item).wheel s).count item = (t.wheel s).count item + if s = slot then 1 else 0) ∧
      (slot = .near (t.firstDue (delay (t.heap item).interval) % 256) ∨
        ((t.insert item).heap item).index = t.firstDue (delay (t.heap item).interval) % 2 ^ 32) ∧
      ((t.insert item).heap item).remainTimes = (t.heap item).remainTimes := by
  obtain ⟨hE, hE', hN, hN'⟩ := window t
  by_cases hpos : 1 ≤ delay (t.heap item).interval
  · have hdelay : (t.heap item).interval.tdiv 10 = (delay (t.heap item).interval).toNat := by
      unfold delay at hpos ⊢
      unfold MIN_INTERVAL at hpos ⊢
      omega
    obtain ⟨⟨slot, hplace, hcount⟩, hheap⟩ := insert_place hdelay (by omega) hE hE' (by omega) hN
    rw [firstDue, if_pos hpos]
    exact ⟨slot, hplace, hcount, Or.inr (by rw [hheap]), by rw [hheap]⟩
  · have hslot : (((t.ticks : Int) + delay (t.heap item).interval) % 256).toNat =
        t.firstDue (delay (t.heap item).interval) % 256 := by
      rw [firstDue, if_neg hpos]
      omega
    rw [insert_near (by omega), hslot]
    refine ⟨_, .near (nextDispatch_le_firstDue t _) ?_, fun s => ?_, Or.inl rfl, ?_⟩
    · rw [firstDue, if_neg hpos]
      omega
    · rw [pushFront_count]
      simp only [and_true]
      rfl
    · show (Function.update t.heap item _ item).remainTimes = _
      rw [Function.update_self]

/-- **Adding**: the first due tick of the new item is ahead, and it waits for it. -/
theorem addTimeCall_coming {t : Timer} {history : List (Nat × List Nat)} {interval times : Int}
    {callback : Option Nat} (h : Clock t history) (haccepted : Accepted interval callback times)
    (hn : delay interval < 2 ^ 32) :
    Awaited (t.addTimeCall interval callback times).1 history t.next (t.firstDue (delay interval)) ∧
      Coming (t.addTimeCall interval callback times).1 t.next (t.firstDue (delay interval)) := by
  have hclock := step_clock h (.addTimeCall interval callback times) rfl
  rw [show dispatches [Event.returned _] = [] from rfl, List.append_nil] at hclock
  have hheap := allocated_heap t interval callback times
  obtain ⟨habsent, hnot⟩ := h.fresh t.next (Nat.le_refl _)
  obtain ⟨hN, hE, hnext⟩ := insert_clock (t.allocated interval callback times) t.next
  obtain ⟨slot, hplace, hcount, hindex, hremains⟩ :=
    insert_firstDue (t.allocated interval callback times) t.next (by rw [hheap]; exact hn)
  rw [addTimeCall_accepted haccepted] at hclock ⊢
  rw [hheap] at hplace hindex hremains
  have hsame : (t.allocated interval callback times).firstDue (delay interval) = t.firstDue (delay interval) := rfl
  rw [hsame] at hplace hindex
  have hcoming : Coming { (t.allocated interval callback times).insert t.next with
      scheduleList := Function.update ((t.allocated interval callback times).insert t.next).scheduleList
        ((t.lastID + 1) % 2 ^ 32) (some t.next) } t.next (t.firstDue (delay interval)) := by
    refine ⟨?_, slot, ?_, fun s => ?_, hindex⟩
    · show (((t.allocated interval callback times).insert t.next).heap t.next).remainTimes ≠ 0
      rw [hremains]
      exact haccepted.2.1
    · rw [← hN, ← hE] at hplace
      exact hplace
    · show (((t.allocated interval callback times).insert t.next).wheel s).count t.next = _
      rw [hcount]
      show (t.wheel s).count t.next + _ = _
      rw [habsent, Nat.zero_add]
  refine ⟨⟨hclock, ?_, fun R p hp => ⟨fun _ => hnot p (List.mem_of_getElem? hp), fun hR => ?_⟩, fun _ => hcoming⟩,
    hcoming⟩
  · show t.next < ((t.allocated interval callback times).insert t.next).next
    rw [hnext]
    exact Nat.lt_succ_self _
  · -- the round `firstDue` is still to come
    have hlt := (List.getElem?_eq_some_iff.mp hp).1
    have hle := nextDispatch_le_firstDue t (delay interval)
    rw [h.rounds] at hlt
    omega

/-! ## Runs -/

/-- The step does not remove the item. -/
def Keeps (item : Nat) (t : Timer) (action : Action) : Prop :=
  ∀ id, action = .remove id → t.scheduleList id ≠ some item

theorem keeps_worker (item k : Nat) (t : Timer) : Along step (Keeps item) t (List.replicate k .worker) :=
  along_of_forall (fun a ha _ id hid => by rw [List.eq_of_mem_replicate ha] at hid; cases hid) t

theorem run_awaited {t t' : Timer} {history : List (Nat × List Nat)} {item D : Nat} {behind : List Action}
    {out : List (List Event)} (h : Awaited t history item D) (hkept : Along step (Keeps item) t behind)
    (hrun : runOps step t behind = some (t', out)) : Awaited t' (history ++ dispatches out.flatten) item D :=
  runOps_trace (fun s _ rs => Awaited s (history ++ dispatches rs.flatten) item D)
    (fun s _ rs i s' r hs hok hstep => by
      rw [dispatches_concat, ← List.append_assoc]
      exact step_awaited hs i hok hstep)
    behind t t' [] [] out (by rw [show dispatches [].flatten = [] from rfl, List.append_nil]; exact h) hkept hrun

/-- The worker goes on to the next round. -/
theorem next_round (t : Timer) : ∃ k t' out, runOps step t (List.replicate k .worker) = some (t', out) ∧
    0 < (dispatches out.flatten).length := by
  have hdispatch : ∀ s : Timer, s.phase = .dispatch →
      ∃ s' out, runOps step s [.worker] = some (s', out) ∧ 0 < (dispatches out.flatten).length := fun s hs => by
    have hstep : s.step .worker = some ({ s.dispatch with phase := .tick }, [.dispatched s.tick (s.pushed s.dispatch)]) := by
      simp only [step, workerStep, hs]
    exact ⟨_, _, runOps_cons.mpr ⟨_, _, [], hstep, rfl, rfl⟩, Nat.one_pos⟩
  have hexpand : ∀ s : Timer, s.phase = .expand →
      ∃ s' out, runOps step s [.worker, .worker] = some (s', out) ∧ 0 < (dispatches out.flatten).length :=
        fun s hs => by
    have hstep : s.step .worker = some ({ s.expand with phase := .dispatch }, []) := by
      simp only [step, workerStep, hs]
    obtain ⟨s', out, hrun, hpos⟩ := hdispatch { s.expand with phase := .dispatch } rfl
    exact ⟨s', [] :: out, runOps_cons.mpr ⟨_, _, out, hstep, hrun, rfl⟩, hpos⟩
  cases hphase : t.phase with
  | dispatch => exact ⟨1, hdispatch t hphase⟩
  | expand => exact ⟨2, hexpand t hphase⟩
  | tick =>
    have hstep : t.step .worker = some ({ t with ticks := t.ticks + 1, phase := .expand }, []) := by
      simp only [step, workerStep, hphase]
    obtain ⟨s', out, hrun, hpos⟩ := hexpand { t with ticks := t.ticks + 1, phase := .expand } rfl
    exact ⟨3, s', [] :: out, runOps_cons.mpr ⟨_, _, out, hstep, hrun, rfl⟩, hpos⟩

/-- The worker reaches every number of rounds. -/
theorem rounds_reached : ∀ (R : Nat) (t : Timer), ∃ k t' out,
    runOps step t (List.replicate k .worker) = some (t', out) ∧ R ≤ (dispatches out.flatten).length
  | 0, t => ⟨0, t, [], rfl, Nat.zero_le _⟩
  | R + 1, t => by
    obtain ⟨k, t₁, out₁, hrun₁, hpos⟩ := next_round t
    obtain ⟨k', t', out', hrun', hle⟩ := rounds_reached R t₁
    refine ⟨k + k', t', out₁ ++ out', ?_, ?_⟩
    · rw [List.replicate_add]
      exact runOps_concat hrun₁ hrun'
    · rw [List.flatten_append, dispatches, List.filterMap_append, List.length_append]
      exact Nat.add_comm R 1 ▸ Nat.add_le_add hpos hle

/-- Every run from `t` on that does not remove the item goes on to the round `D`, which is the first that takes
it. -/
theorem Awaited.first {t : Timer} {history : List (Nat × List Nat)} {item D : Nat} (h : Awaited t history item D) :
    (∀ behind t' out, runOps step t behind = some (t', out) → Along step (Keeps item) t behind →
      ∀ (R : Nat) p, (history ++ dispatches out.flatten)[R]? = some p →
        (R < D → item ∉ p.2) ∧ (R = D → item ∈ p.2)) ∧
      ∀ R : Nat, ∃ behind t' out p, runOps step t behind = some (t', out) ∧ Along step (Keeps item) t behind ∧
        (history ++ dispatches out.flatten)[R]? = some p := by
  refine ⟨fun behind t' out hrun hkept => (run_awaited h hkept hrun).rounds, fun R => ?_⟩
  obtain ⟨k, t', out, hrun, hle⟩ := rounds_reached (R + 1) t
  have hlt : R < (history ++ dispatches out.flatten).length := by rw [List.length_append]; omega
  exact ⟨_, t', out, _, hrun, keeps_worker item k t, List.getElem?_eq_getElem hlt⟩

/-- The first dispatch after this state takes the item, whatever is called before it. -/
def PushedNext (t : Timer) (history : List (Nat × List Nat)) (item : Nat) : Prop :=
  ∀ behind t' out, runOps step t behind = some (t', out) → Along step (Keeps item) t behind →
    ∀ p, (history ++ dispatches out.flatten)[history.length]? = some p → item ∈ p.2

/-- The item is in exactly one list of the wheel, and the round `due` is the first one that takes it, whatever is
    called before. -/
structure PlacedFor (t : Timer) (history : List (Nat × List Nat)) (item due : Nat) : Prop where
  slot : ∃ slot, At t item slot
  first : ∀ behind t' out, runOps step t behind = some (t', out) → Along step (Keeps item) t behind →
    ∀ (R : Nat) p, (history ++ dispatches out.flatten)[R]? = some p → (R < due → item ∉ p.2) ∧
      (R = due → item ∈ p.2)

theorem pushedNext_iff {t : Timer} {history : List (Nat × List Nat)} {item D : Nat} (h : Awaited t history item D)
    (hle : history.length ≤ D) : PushedNext t history item ↔ D = history.length := by
  obtain ⟨hfirst, hreached⟩ := h.first
  constructor
  · intro hnext
    obtain ⟨behind, t', out, p, hrun, hkept, hp⟩ := hreached history.length
    have hmem := hnext behind t' out hrun hkept p hp
    exact Nat.le_antisymm (Nat.le_of_not_lt fun hlt => (hfirst behind t' out hrun hkept _ p hp).1 hlt hmem) hle
  · rintro rfl behind t' out hrun hkept p hp
    exact (hfirst behind t' out hrun hkept _ p hp).2 rfl

theorem placedFor_iff {t : Timer} {history : List (Nat × List Nat)} {item D due : Nat}
    (h : Awaited t history item D) (hcoming : Coming t item D) : PlacedFor t history item due ↔ due = D := by
  obtain ⟨hfirst, hreached⟩ := h.first
  constructor
  · intro hplaced
    obtain hlt | heq | hgt := Nat.lt_trichotomy due D
    · obtain ⟨behind, t', out, p, hrun, hkept, hp⟩ := hreached due
      exact absurd ((hplaced.first behind t' out hrun hkept due p hp).2 rfl)
        ((hfirst behind t' out hrun hkept due p hp).1 hlt)
    · exact heq
    · obtain ⟨behind, t', out, p, hrun, hkept, hp⟩ := hreached D
      exact absurd ((hfirst behind t' out hrun hkept D p hp).2 rfl)
        ((hplaced.first behind t' out hrun hkept D p hp).1 hgt)
  · rintro rfl
    obtain ⟨-, slot, -, hat, -⟩ := hcoming
    exact ⟨⟨slot, hat⟩, hfirst⟩

theorem run_clock {before : List Action} {t : Timer} {out : List (List Event)}
    (hbefore : runOps step new before = some (t, out)) : Clock t (dispatches out.flatten) :=
  runOps_inv (fun s _ rs => Clock s (dispatches rs.flatten))
    (fun s is rs i s' r h hstep => by rw [dispatches_concat]; exact step_clock h i hstep) new_clock hbefore

/-- **A short one-shot waits for a whole turn of the wheel exactly when it is added between the dispatch of a
round and its `++tick`.** -/
theorem short_one_shot_iff (before : List Action) (t : Timer) (out : List (List Event)) (interval : Int)
    (callback : Nat) (hbefore : runOps step new before = some (t, out)) (hlow : 0 ≤ interval)
    (hhigh : interval < 10) :
    PushedNext (t.addTimeCall interval (some callback) 1).1 (dispatches out.flatten) t.next ↔ t.phase ≠ .tick := by
  have hclock := run_clock hbefore
  have hdelay := delay_short hlow hhigh
  have haccepted : Accepted interval (some callback) 1 := ⟨rfl, by decide, Or.inl rfl⟩
  obtain ⟨hawaited, -⟩ := addTimeCall_coming hclock haccepted (by omega)
  rw [pushedNext_iff hawaited (by rw [hclock.rounds]; exact nextDispatch_le_firstDue t _), hclock.rounds, hdelay,
    firstDue, if_neg (by decide), nextDispatch]
  cases hphase : t.phase with
  | dispatch | expand => simp
  | tick =>
    simp only [ne_eq, not_true_eq_false, iff_false]
    omega

theorem short_one_shot_next :
    ∃ t out, runOps step new [.worker, .worker] = some (t, out) ∧
      PushedNext (t.addTimeCall 9 (some 7) 1).1 (dispatches out.flatten) t.next :=
  ⟨_, _, rfl, (short_one_shot_iff [.worker, .worker] _ _ 9 7 rfl (by decide) (by decide)).mpr (by decide)⟩

/-- **A delay of zero, added behind the dispatch of its own tick.** -/
theorem short_one_shot_late : ¬ ∀ (before : List Action) (t : Timer) (out : List (List Event)) (interval : Int)
    (callback : Nat), runOps step new before = some (t, out) → 0 ≤ interval → interval < 10 →
      PushedNext (t.addTimeCall interval (some callback) 1).1 (dispatches out.flatten) t.next := by
  intro hclaim
  have hnext := hclaim [.worker] _ _ 0 7 rfl (by decide) (by decide) (List.replicate 3 .worker) _ _ rfl
    (keeps_worker _ _ _) (1, []) rfl
  exact absurd hnext List.not_mem_nil

/-- **Every accepted schedule is placed for the tick of its delay exactly when the delay has a level**, and, if it
is not positive, names the list of a tick that is still to be dispatched. -/
theorem placed_iff (before : List Action) (t : Timer) (out : List (List Event)) (interval : Int)
    (callback : Option Nat) (times : Int) (hbefore : runOps step new before = some (t, out))
    (haccepted : Accepted interval callback times) :
    PlacedFor (t.addTimeCall interval callback times).1 (dispatches out.flatten) t.next
        (t.ticks + (max 0 (delay interval)).toNat) ↔
      (1 ≤ delay interval ∧ delay interval < 2 ^ 32) ∨
        (delay interval ≤ 0 ∧ delay interval % 256 = 0 ∧ t.phase ≠ .tick) := by
  have hclock := run_clock hbefore
  by_cases hn : delay interval < 2 ^ 32
  · obtain ⟨hawaited, hcoming⟩ := addTimeCall_coming hclock haccepted hn
    rw [placedFor_iff hawaited hcoming, firstDue]
    split
    · rename_i hpos
      exact ⟨fun _ => Or.inl ⟨hpos, hn⟩, fun _ => by omega⟩
    · rename_i hpos
      rw [or_iff_right (fun h => hpos h.1)]
      cases hphase : t.phase with
      | dispatch | expand =>
        simp only [nextDispatch, hphase, ne_eq, reduceCtorEq, not_false_eq_true, and_true]
        omega
      | tick =>
        simp only [nextDispatch, hphase, ne_eq, not_true_eq_false, and_false, iff_false]
        omega
  · have habsent : Absent (t.addTimeCall interval callback times).1 t.next := by
      intro s
      rw [addTimeCall_accepted haccepted, insert_none (by rw [allocated_heap]; show (2 : Int) ^ 32 ≤ delay interval; omega)]
      exact (hclock.fresh t.next (Nat.le_refl _)).1 s
    constructor
    · rintro ⟨⟨slot, hat⟩, -⟩
      have hone := hat slot
      rw [habsent, if_pos rfl] at hone
      cases hone
    · rintro (⟨-, hlt⟩ | ⟨hle, -, -⟩) <;> omega

theorem placed_month : PlacedFor (new.addTimeCall 2592000000 (some 7) (-1)).1 [] 0 259200000 :=
  (placed_iff [] new [] 2592000000 (some 7) (-1) rfl (by decide)).mpr (Or.inl (by decide))

/-- **A delay of `2 ^ 32` ticks is accepted and put nowhere.** -/
theorem long_delay_not_placed : ¬ ∀ (before : List Action) (t : Timer) (out : List (List Event)) (interval : Int)
    (callback : Option Nat) (times : Int), runOps step new before = some (t, out) →
      Accepted interval callback times →
      PlacedFor (t.addTimeCall interval callback times).1 (dispatches out.flatten) t.next
        (t.ticks + (max 0 (delay interval)).toNat) := by
  intro hclaim
  obtain ⟨⟨slot, hat⟩, -⟩ := hclaim [] new [] 42949672960 (some 7) 1 rfl (by decide)
  have hempty : (new.addTimeCall 42949672960 (some 7) 1).1.wheel = new.wheel := by
    rw [addTimeCall_accepted (by decide), insert_none (by rw [allocated_heap]; decide)]
    rfl
  have hone := hat slot
  rw [hempty, if_pos rfl] at hone
  cases hone

end Libws.Core.Timer
