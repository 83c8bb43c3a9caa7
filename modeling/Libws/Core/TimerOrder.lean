import Mathlib.Data.List.GetD
import Libws.Core.TimerRuns
import Libws.Core.TimerRemove

/-!
# The order in which `update` calls

`dispatch` pushes to the front of `dispatchList`, round after round, and `update` goes through the list from its
front: what was dispatched last is called first.

* `collected` — what the rounds between two numbers pushed, each item with its round, as the list has them;
* `Orderly` — every running or finished update has called some of the items that it swapped out, in their order;
  one step keeps it (`step_orderly`);
* `updates_call_latest_first` — every update of every run.
-/

set_option autoImplicit false

namespace Libws.Core.Timer

open Libws.Machine

/-! ## What is collected -/

/-- What the round `R` pushed. -/
def pushedIn (rounds : List (Nat × List Nat)) (R : Nat) : List Nat := (rounds.getD R (0, [])).2

/-- What the rounds from `a` on and before `b` pushed, the latest first, each item with its round. -/
def collected (rounds : List (Nat × List Nat)) (a : Nat) : (b : Nat) → List (Nat × Nat)
  | 0 => []
  | b + 1 => if a ≤ b then (pushedIn rounds b).map (b, ·) ++ collected rounds a b else []

variable {rounds : List (Nat × List Nat)} {a b u : Nat}

theorem collected_of_ge (h : b ≤ a) : collected rounds a b = [] := by
  cases b with
  | zero => rfl
  | succ b =>
    rw [collected]
    exact if_neg (by omega)

theorem collected_succ (h : a ≤ b) :
    collected rounds a (b + 1) = (pushedIn rounds b).map (b, ·) ++ collected rounds a b := by
  rw [collected, if_pos h]

theorem collected_mem {c : Nat × Nat} : ∀ {b : Nat}, c ∈ collected rounds a b →
    a ≤ c.1 ∧ c.1 < b ∧ c.2 ∈ pushedIn rounds c.1
  | 0, h => by cases h
  | b + 1, h => by
    rw [collected] at h
    split at h
    · rename_i hle
      rcases List.mem_append.mp h with hnew | hold
      · obtain ⟨item, hitem, rfl⟩ := List.mem_map.mp hnew
        exact ⟨hle, Nat.lt_succ_self b, hitem⟩
      · obtain ⟨hfrom, hlt, hmem⟩ := collected_mem hold
        exact ⟨hfrom, Nat.lt_succ_of_lt hlt, hmem⟩
    · cases h

/-- What is collected has the latest round first. -/
theorem collected_latest_first : ∀ b : Nat, (collected rounds a b).Pairwise fun x y => y.1 ≤ x.1
  | 0 => List.Pairwise.nil
  | b + 1 => by
    rw [collected]
    split
    · refine List.pairwise_append.mpr ⟨List.pairwise_map.mpr (List.pairwise_of_forall fun _ _ => Nat.le_refl b),
        collected_latest_first b, fun x hx y hy => ?_⟩
      obtain ⟨item, -, rfl⟩ := List.mem_map.mp hx
      exact Nat.le_of_lt (collected_mem hy).2.1
    · exact List.Pairwise.nil

/-- Later rounds do not change it. -/
theorem collected_append (more : List (Nat × List Nat)) : ∀ {b : Nat}, b ≤ rounds.length →
    collected (rounds ++ more) a b = collected rounds a b
  | 0, _ => rfl
  | b + 1, h => by
    have hsame : pushedIn (rounds ++ more) b = pushedIn rounds b := by
      unfold pushedIn
      rw [List.getD_append _ _ _ _ h]
    rw [collected, collected, hsame, collected_append more (Nat.le_of_succ_le h)]

/-! ## Updates -/

/-- For each `update` of a run, how many rounds were dispatched before it. -/
def updateMarks : (n : Nat) → List Action → List (List Event) → List Nat
  | n, .update :: actions, events :: out => n :: updateMarks (n + (dispatches events).length) actions out
  | n, _ :: actions, events :: out => updateMarks (n + (dispatches events).length) actions out
  | _, _, _ => []

/-- What the `u`-th update swaps out: the rounds since the update before it. -/
def collectedBy (rounds : List (Nat × List Nat)) (marks : List Nat) (u : Nat) : List (Nat × Nat) :=
  collected rounds ((0 :: marks).getD u 0) (marks.getD u 0)

/-- The schedules that the `u`-th update invokes. -/
def invocations (u : Nat) (events : List Event) : List Nat :=
  events.filterMap fun
    | .invoked update schedule _ => if update = u then some schedule else none
    | _ => none

theorem invocations_append (events events' : List Event) :
    invocations u (events ++ events') = invocations u events ++ invocations u events' := List.filterMap_append ..

theorem dispatches_append (events events' : List Event) :
    dispatches (events ++ events') = dispatches events ++ dispatches events' := List.filterMap_append ..

theorem updateMarks_concat (action : Action) (events : List Event) :
    ∀ (actions : List Action) (out : List (List Event)) (n : Nat), actions.length = out.length →
      updateMarks n (actions ++ [action]) (out ++ [events]) =
        updateMarks n actions out ++ if action = .update then [n + (dispatches out.flatten).length] else []
  | [], [], n, _ => by cases action <;> simp [updateMarks, dispatches]
  | a :: actions, r :: out, n, h => by
    have ih := updateMarks_concat action events actions out (n + (dispatches r).length) (Nat.succ.inj h)
    rw [List.flatten_cons, dispatches_append, List.length_append, ← Nat.add_assoc]
    cases a <;> simp only [List.cons_append, updateMarks, ih]

theorem collectedBy_last (marks : List Nat) :
    collectedBy rounds (marks ++ [b]) marks.length = collected rounds (marks.getLastD 0) b := by
  unfold collectedBy
  rw [List.getD_append_right _ _ _ _ (Nat.le_refl _), Nat.sub_self]
  congr 1
  rw [← List.cons_append, List.getD_append _ _ _ _ (by simp), List.getLastD_eq_getLast?, List.getLast?_eq_getElem?]
  cases marks with
  | nil => rfl
  | cons m marks => simp [List.getD]

theorem collectedBy_other {marks : List Nat} (h : u ≠ marks.length) :
    collectedBy rounds (marks ++ [b]) u = collectedBy rounds marks u := by
  unfold collectedBy
  obtain hlt | hgt := Nat.lt_or_gt_of_ne h
  · rw [List.getD_append _ _ _ _ hlt, ← List.cons_append, List.getD_append _ _ _ _ (by simp; omega)]
  · have hnone : (marks ++ [b]).getD u 0 = 0 ∧ marks.getD u 0 = 0 :=
      ⟨List.getD_eq_default _ _ (by rw [List.length_append, List.length_singleton]; omega),
        List.getD_eq_default _ _ (Nat.le_of_lt hgt)⟩
    rw [hnone.1, hnone.2]
    rfl

theorem collectedBy_append {marks : List Nat} (h : ∀ m ∈ marks, m ≤ rounds.length) (more : List (Nat × List Nat)) :
    collectedBy (rounds ++ more) marks u = collectedBy rounds marks u := by
  refine collected_append more ?_
  rw [List.getD_eq_getElem?_getD]
  cases hmark : marks[u]? with
  | none => exact Nat.zero_le _
  | some m => exact h m (List.mem_of_getElem? hmark)

/-! ## Steps -/

/-- The `u`-th update has invoked some of the items that it has swapped out, in their order, and has `rest`
before it. -/
def Called (rounds : List (Nat × List Nat)) (marks : List Nat) (events : List Event) (u : Nat)
    (rest : List Nat) : Prop :=
  ∃ calls done left : List (Nat × Nat), collectedBy rounds marks u = done ++ left ∧ left.map Prod.snd = rest ∧
    calls.Sublist done ∧ calls.map Prod.snd = invocations u events

structure Orderly (t : Timer) (events : List Event) (marks : List Nat) : Prop where
  updates : marks.length = t.updates
  marks_le : ∀ m ∈ marks, m ≤ (dispatches events).length
  waiting : t.dispatchList =
    (collected (dispatches events) (marks.getLastD 0) (dispatches events).length).map Prod.snd
  frames : t.frames.Pairwise fun f g => g.1 < f.1
  started : ∀ f ∈ t.frames, f.1 < t.updates
  running : ∀ f ∈ t.frames, Called (dispatches events) marks events f.1 f.2
  finished : ∀ u, ∃ rest, Called (dispatches events) marks events u rest

theorem new_orderly : Orderly new [] [] :=
  ⟨rfl, fun _ h => absurd h List.not_mem_nil, rfl, List.Pairwise.nil, fun _ h => absurd h List.not_mem_nil,
    fun _ h => absurd h List.not_mem_nil, fun _ => ⟨[], [], [], [], rfl, rfl, List.Sublist.refl _, rfl⟩⟩

/-- A step that invokes nothing, and swaps nothing out. -/
theorem Orderly.silent {t t' : Timer} {events more : List Event} {marks : List Nat} (h : Orderly t events marks)
    (hframes : t'.frames = t.frames) (hupdates : t'.updates = t.updates) (hsilent : ∀ u, invocations u more = [])
    (hwaiting : t'.dispatchList = (collected (dispatches (events ++ more)) (marks.getLastD 0)
      (dispatches (events ++ more)).length).map Prod.snd) : Orderly t' (events ++ more) marks := by
  have hcalled : ∀ u rest, Called (dispatches events) marks events u rest →
      Called (dispatches (events ++ more)) marks (events ++ more) u rest := fun u rest hu => by
    unfold Called
    rw [dispatches_append, collectedBy_append h.marks_le, invocations_append, hsilent, List.append_nil]
    exact hu
  refine ⟨h.updates.trans hupdates.symm, fun m hm => ?_, hwaiting, ?_, ?_, ?_, fun u => ?_⟩
  · rw [dispatches_append, List.length_append]
    exact Nat.le_add_right_of_le (h.marks_le m hm)
  · rw [hframes]
    exact h.frames
  · rw [hframes, hupdates]
    exact h.started
  · rw [hframes]
    exact fun f hf => hcalled _ _ (h.running f hf)
  · obtain ⟨rest, hrest⟩ := h.finished u
    exact ⟨rest, hcalled _ _ hrest⟩

theorem foldl_dispatchItem_front : ∀ (items : List Nat) (t : Timer),
    ∃ xs, (items.foldl dispatchItem t).dispatchList = xs ++ t.dispatchList
  | [], _ => ⟨[], rfl⟩
  | item :: items, t => by
    obtain ⟨xs, hxs⟩ := foldl_dispatchItem_front items (t.dispatchItem item)
    refine ⟨xs ++ if (t.heap item).remainTimes ≠ 0 then [item] else [], ?_⟩
    rw [List.foldl_cons, hxs, dispatchItem_dispatchList, List.append_assoc]

/-- A round pushes to the front of `dispatchList`. -/
theorem dispatch_front (t : Timer) : t.dispatch.dispatchList = t.pushed t.dispatch ++ t.dispatchList := by
  obtain ⟨xs, hxs⟩ := foldl_dispatchItem_front (t.wheel (.near (t.tick &&& NEAR_MASK))) t
  have hfront : t.dispatch.dispatchList = xs ++ t.dispatchList := hxs
  rw [pushed_eq hfront, hfront]

theorem getLastD_le {marks : List Nat} {n : Nat} (h : ∀ m ∈ marks, m ≤ n) : marks.getLastD 0 ≤ n := by
  rw [List.getLastD_eq_getLast?]
  cases hlast : marks.getLast? with
  | none => exact Nat.zero_le n
  | some m => exact h m (List.mem_of_getLast? hlast)

theorem Orderly.dispatched {t : Timer} {events : List Event} {marks : List Nat} (h : Orderly t events marks) :
    Orderly { t.dispatch with phase := .tick } (events ++ [.dispatched t.tick (t.pushed t.dispatch)]) marks := by
  obtain ⟨hframes, hupdates, -, -⟩ := foldl_dispatchItem_frame (t.wheel (.near (t.tick &&& NEAR_MASK))) t
  refine h.silent hframes hupdates (fun u => rfl) ?_
  have hnew : dispatches (events ++ [.dispatched t.tick (t.pushed t.dispatch)]) =
      dispatches events ++ [(t.tick, t.pushed t.dispatch)] := dispatches_append ..
  have hround : pushedIn (dispatches events ++ [(t.tick, t.pushed t.dispatch)]) (dispatches events).length =
      t.pushed t.dispatch := by
    unfold pushedIn
    rw [List.getD_append_right _ _ _ _ (Nat.le_refl _), Nat.sub_self]
    rfl
  show t.dispatch.dispatchList = _
  rw [hnew, List.length_append, List.length_singleton, collected_succ (getLastD_le h.marks_le), hround,
    collected_append _ (Nat.le_refl _), List.map_append, dispatch_front, h.waiting, List.map_map]
  exact congrArg (· ++ _) (List.map_id _).symm

/-- The swap of `update`. -/
theorem Orderly.swapped {t : Timer} {events : List Event} {marks : List Nat} (h : Orderly t events marks) :
    Orderly { t with frames := (t.updates, t.dispatchList) :: t.frames, dispatchList := [], updates := t.updates + 1 }
      events (marks ++ [(dispatches events).length]) := by
  have hother : ∀ u rest, u ≠ t.updates → Called (dispatches events) marks events u rest →
      Called (dispatches events) (marks ++ [(dispatches events).length]) events u rest :=
        fun u rest hu hcalled => by
    unfold Called
    rw [collectedBy_other (by rw [h.updates]; exact hu)]
    exact hcalled
  have hnew : Called (dispatches events) (marks ++
    [(dispatches events).length]) events t.updates t.dispatchList := by
    obtain ⟨-, calls, done, left, hlist, -, hsub, hcalls⟩ := h.finished t.updates
    have hnone : collectedBy (dispatches events) marks t.updates = [] := by
      rw [collectedBy, List.getD_eq_default marks 0 (Nat.le_of_eq h.updates)]
      rfl
    rw [hnone] at hlist
    obtain ⟨rfl, -⟩ := List.append_eq_nil_iff.mp hlist.symm
    refine ⟨calls, [], _, ?_, h.waiting.symm, hsub, hcalls⟩
    rw [← h.updates]
    exact collectedBy_last marks
  refine ⟨by rw [List.length_append, h.updates]; rfl, fun m hm => ?_, ?_, ?_, ?_, ?_, fun u => ?_⟩
  · rcases List.mem_append.mp hm with hm | hm
    · exact h.marks_le m hm
    · exact Nat.le_of_eq (List.mem_singleton.mp hm)
  · rw [List.getLastD_concat, collected_of_ge (Nat.le_refl _)]
    rfl
  · exact List.pairwise_cons.mpr ⟨h.started, h.frames⟩
  · intro f hf
    rcases List.mem_cons.mp hf with rfl | hf
    · exact Nat.lt_succ_self _
    · exact Nat.lt_succ_of_lt (h.started f hf)
  · intro f hf
    rcases List.mem_cons.mp hf with rfl | hf
    · exact hnew
    · exact hother _ _ (Nat.ne_of_lt (h.started f hf)) (h.running f hf)
  · by_cases hu : u = t.updates
    · subst hu
      exact ⟨_, hnew⟩
    · obtain ⟨rest, hrest⟩ := h.finished u
      exact ⟨rest, hother u rest hu hrest⟩

/-- The innermost update goes on by one item, and may invoke it. -/
theorem Orderly.next {t : Timer} {events more : List Event} {marks : List Nat} (h : Orderly t events marks)
    {u₁ item : Nat} {callList : List Nat} {frames : List (Nat × List Nat)}
    (hframes : t.frames = (u₁, item :: callList) :: frames) (hrounds : dispatches more = [])
    (hmore : ∀ u, invocations u more = [] ∨ u = u₁ ∧ invocations u more = [item]) :
    Orderly { t with frames := (u₁, callList) :: frames } (events ++ more) marks := by
  have hsame : dispatches (events ++ more) = dispatches events := by
    rw [dispatches_append, hrounds, List.append_nil]
  obtain ⟨hlatest, hrest⟩ := List.pairwise_cons.mp (hframes ▸ h.frames)
  have hother : ∀ u rest, u ≠ u₁ → Called (dispatches events) marks events u rest →
      Called (dispatches events) marks (events ++ more) u rest := fun u rest hu hcalled => by
    unfold Called
    rw [invocations_append, (hmore u).resolve_right fun hinvoked => hu hinvoked.1, List.append_nil]
    exact hcalled
  have hnew : Called (dispatches events) marks (events ++ more) u₁ callList := by
    obtain ⟨calls, done, left, hlist, hleft, hsub, hcalls⟩ :=
      h.running (u₁, item :: callList) (hframes ▸ List.mem_cons_self ..)
    obtain ⟨c, left', rfl, rfl, hleft'⟩ := List.map_eq_cons_iff.mp hleft
    rcases hmore u₁ with hnone | ⟨-, hone⟩
    · refine ⟨calls, done ++ [c], left', by rw [hlist, List.append_assoc]; rfl, hleft',
        hsub.trans (List.sublist_append_left ..), ?_⟩
      rw [invocations_append, hnone, List.append_nil, hcalls]
    · refine ⟨calls ++ [c], done ++ [c], left', by rw [hlist, List.append_assoc]; rfl, hleft',
        hsub.append (List.Sublist.refl _), ?_⟩
      rw [invocations_append, hone, List.map_append, hcalls]
      rfl
  refine ⟨h.updates, by rw [hsame]; exact h.marks_le, by rw [hsame]; exact h.waiting,
    List.pairwise_cons.mpr ⟨hlatest, hrest⟩, fun f hf => ?_, fun f hf => ?_, fun u => ?_⟩
  · rcases List.mem_cons.mp hf with rfl | hf
    · exact h.started (u₁, item :: callList) (hframes ▸ List.mem_cons_self ..)
    · exact h.started f (hframes ▸ List.mem_cons_of_mem _ hf)
  · rw [hsame]
    rcases List.mem_cons.mp hf with rfl | hf
    · exact hnew
    · exact hother _ _ (Nat.ne_of_lt (hlatest f hf)) (h.running f (hframes ▸ List.mem_cons_of_mem _ hf))
  · rw [hsame]
    by_cases hu : u = u₁
    · subst hu
      exact ⟨_, hnew⟩
    · obtain ⟨rest, hcalled⟩ := h.finished u
      exact ⟨rest, hother u rest hu hcalled⟩

/-- **One step** keeps the order; `update` makes one more mark. -/
theorem step_orderly {t t' : Timer} {events more : List Event} {marks : List Nat} (h : Orderly t events marks)
    (action : Action) (hstep : t.step action = some (t', more)) :
    Orderly t' (events ++ more) (marks ++ if action = .update then [(dispatches events).length] else []) := by
  have hsame : ∀ (s : Timer) (es : List Event), dispatches es = [] → (∀ u, invocations u es = []) →
      s.frames = t.frames → s.updates = t.updates → s.dispatchList = t.dispatchList →
      Orderly s (events ++ es) marks := by
    intro s es hrounds hsilent hframes hupdates hlist
    refine h.silent hframes hupdates hsilent ?_
    rw [dispatches_append, hrounds, List.append_nil, hlist]
    exact h.waiting
  cases step_cases hstep with
  | addTimeCall interval callback times =>
    obtain ⟨hframes, hupdates, hlist⟩ := addTimeCall_frame t interval callback times
    rw [if_neg (fun hne => by cases hne), List.append_nil]
    exact hsame _ _ rfl (fun _ => rfl) hframes hupdates hlist
  | remove id =>
    obtain ⟨-, hlist, -, hframes, hupdates⟩ := remove_frame t id
    rw [if_neg (fun hne => by cases hne), List.append_nil marks]
    exact hsame (t.remove id) [] rfl (fun _ => rfl) hframes hupdates hlist
  | update =>
    rw [if_pos rfl, List.append_nil]
    exact h.swapped
  | returned u₁ frames hframes =>
    rw [if_neg (by decide), List.append_nil, List.append_nil]
    have hrest := (List.pairwise_cons.mp (hframes ▸ h.frames)).2
    exact ⟨h.updates, h.marks_le, h.waiting, hrest, fun f hf => h.started f (hframes ▸ List.mem_cons_of_mem _ hf),
      fun f hf => h.running f (hframes ▸ List.mem_cons_of_mem _ hf), h.finished⟩
  | skipped u₁ item callList frames hframes =>
    rw [if_neg (by decide), List.append_nil marks]
    exact h.next hframes rfl fun u => Or.inl rfl
  | invoked u₁ item callList frames callback hframes =>
    rw [if_neg (by decide), List.append_nil]
    refine h.next hframes rfl fun u => ?_
    by_cases hu : u = u₁
    · subst hu
      exact Or.inr ⟨rfl, by simp [invocations]⟩
    · exact Or.inl (by simp [invocations, Ne.symm hu])
  | dispatch =>
    rw [if_neg (by decide), List.append_nil]
    exact h.dispatched
  | tick =>
    rw [if_neg (by decide), List.append_nil marks]
    exact hsame _ _ rfl (fun _ => rfl) rfl rfl rfl
  | expand =>
    have honly := expand_only t
    rw [if_neg (by decide), List.append_nil marks]
    exact hsame _ _ rfl (fun _ => rfl) (by rw [honly]) (by rw [honly]) (by rw [honly])

/-- **The callbacks of one update run in the reverse order of the rounds that dispatched them.** -/
theorem updates_call_latest_first (actions : List Action) (t : Timer) (out : List (List Event))
    (hrun : runOps step new actions = some (t, out)) (u : Nat) :
    ∃ calls : List (Nat × Nat), calls.map Prod.snd = invocations u out.flatten ∧
      calls.Sublist (collectedBy (dispatches out.flatten) (updateMarks 0 actions out) u) ∧
      calls.Pairwise fun x y => y.1 ≤ x.1 := by
  obtain ⟨-, horderly⟩ := runOps_inv
    (fun s is rs => is.length = rs.length ∧ Orderly s rs.flatten (updateMarks 0 is rs))
    (fun s is rs i s' r ⟨hlength, h⟩ hstep => by
      refine ⟨by rw [List.length_append, List.length_append, hlength]; rfl, ?_⟩
      rw [updateMarks_concat i r is rs 0 hlength, List.flatten_append, List.flatten_singleton, Nat.zero_add]
      exact step_orderly h i hstep)
    ⟨rfl, new_orderly⟩ hrun
  obtain ⟨rest, calls, done, left, hlist, -, hsub, hcalls⟩ := horderly.finished u
  have hall : calls.Sublist (collectedBy (dispatches out.flatten) (updateMarks 0 actions out) u) := by
    rw [hlist]
    exact hsub.trans (List.sublist_append_left ..)
  exact ⟨calls, hcalls, hall, (collected_latest_first _).sublist hall⟩

/-- One-shots of 10 ms and of 20 ms, three rounds, and an update that calls both. -/
def twoOneShots : List Action :=
  [.addTimeCall 10 (some 5) 1, .addTimeCall 20 (some 6) 1] ++ List.replicate 7 .worker ++ [.update,
    .updateNext, .updateNext]

theorem updates_call_latest_first_two : ∃ t out, runOps step new twoOneShots = some (t, out) ∧
    invocations 0 out.flatten = [1, 0] ∧ ∃ calls : List (Nat × Nat),
      calls.map Prod.snd = invocations 0 out.flatten ∧
      calls.Sublist (collectedBy (dispatches out.flatten) (updateMarks 0 twoOneShots out) 0) ∧
      calls.Pairwise fun x y => y.1 ≤ x.1 := by
  obtain ⟨⟨t, out⟩, hrun, hinvoked⟩ :
      ∃ x, runOps step new twoOneShots = some x ∧ invocations 0 x.2.flatten = [1, 0] := ⟨_, rfl, rfl⟩
  exact ⟨t, out, hrun, hinvoked, updates_call_latest_first twoOneShots t out hrun 0⟩

/-- **The one-shot that is due later is called first.** -/
theorem later_round_called_first : ¬ ∀ (actions : List Action) (t : Timer) (out : List (List Event)),
    runOps step new actions = some (t, out) → ∀ u, ∃ calls : List (Nat × Nat),
      calls.map Prod.snd = invocations u out.flatten ∧
      calls.Sublist (collectedBy (dispatches out.flatten) (updateMarks 0 actions out) u) ∧
      calls.Pairwise fun x y => x.1 ≤ y.1 := by
  intro hclaim
  obtain ⟨⟨t, out⟩, hrun, hinvoked, hcollected⟩ :
      ∃ x, runOps step new twoOneShots = some x ∧ invocations 0 x.2.flatten = [1, 0] ∧
        collectedBy (dispatches x.2.flatten) (updateMarks 0 twoOneShots x.2) 0 = [(2, 1), (1, 0)] :=
          ⟨_, rfl, rfl, rfl⟩
  obtain ⟨calls, hcalls, hsub, hsorted⟩ := hclaim _ t out hrun 0
  rw [hinvoked] at hcalls
  rw [hcollected] at hsub
  have hlength : calls.length = 2 := by rw [← List.length_map (f := Prod.snd), hcalls]; rfl
  rw [hsub.eq_of_length hlength] at hsorted
  exact absurd hsorted (by decide)

end Libws.Core.Timer
