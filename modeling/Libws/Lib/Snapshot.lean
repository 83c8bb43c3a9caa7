import Mathlib.Algebra.GroupWithZero.Nat
import Libws.Lib.Machine

/-!
# Dispatching to a snapshot

A dispatch copies the items that are registered, and calls the copies one after the other.  While one
is called anything may happen: the registry changes, or another dispatch begins and runs on top.

* `step` — one step of such a machine: an operation on the registry, the begin of a dispatch, or the
  return of the call on top;
* `run_dispatch` — a dispatch during which nothing else happens calls the whole copy, in order;
* `calls_of_quiet` — what is not copied any more is called only by the dispatches that run already;
* `called_once` — what is erased after its call is called once at most.
-/

set_option autoImplicit false

namespace Libws.Snapshot

open Libws.Machine

variable {ρ κ ω δ : Type}

/-- What a dispatcher does to its registry. -/
structure Dispatch (ρ κ ω δ : Type) where
  apply : ρ → ω → ρ
  /-- the copies that a dispatch makes -/
  snapshot : ρ → δ → Option (List κ)
  /-- what follows the call of a copy -/
  finish : ρ → κ → ρ

/-- A dispatch that runs. -/
structure Frame (κ : Type) where
  running : κ
  rest : List κ
  /-- history: the clock when it began -/
  begun : Nat
  deriving DecidableEq, Repr

structure State (ρ κ : Type) where
  registry : ρ
  /-- the dispatches that run, the innermost first -/
  stack : List (Frame κ)
  /-- history: the steps done -/
  clock : Nat

/-- Nothing runs. -/
def State.init (registry : ρ) : State ρ κ := ⟨registry, [], 0⟩

inductive Move (ω δ : Type) where
  | op (o : ω)
  | dispatch (d : δ)
  | returned

structure Call (κ : Type) where
  item : κ
  /-- history: the clock when its dispatch began -/
  begun : Nat
  deriving DecidableEq, Repr

/-- Call the next copy, if there is one. -/
def proceed (registry : ρ) (begun : Nat) (items : List κ) (stack : List (Frame κ)) (clock : Nat) :
    State ρ κ × Option (Call κ) :=
  match items with
  | [] => (⟨registry, stack, clock⟩, none)
  | item :: rest => (⟨registry, ⟨item, rest, begun⟩ :: stack, clock⟩, some ⟨item, begun⟩)

/-- An operation on the registry. -/
def State.afterOp (D : Dispatch ρ κ ω δ) (s : State ρ κ) (o : ω) : State ρ κ :=
  ⟨D.apply s.registry o, s.stack, s.clock + 1⟩

def step (D : Dispatch ρ κ ω δ) (s : State ρ κ) : Move ω δ → Option (State ρ κ × Option (Call κ))
  | .op o => some (s.afterOp D o, none)
  | .dispatch d =>
    match D.snapshot s.registry d with
    | none => none
    | some items => some (proceed s.registry s.clock items s.stack (s.clock + 1))
  | .returned =>
    match s.stack with
    | [] => none
    | frame :: stack =>
      some (proceed (D.finish s.registry frame.running) frame.begun frame.rest stack (s.clock + 1))

variable {D : Dispatch ρ κ ω δ}

/-- What a step can do. -/
theorem step_cases {s s' : State ρ κ} {a : Move ω δ} {r : Option (Call κ)} (h : step D s a = some (s', r)) :
    (∃ o, a = .op o ∧ s' = s.afterOp D o ∧ r = none) ∨
      (∃ d items, a = .dispatch d ∧ D.snapshot s.registry d = some items ∧
        proceed s.registry s.clock items s.stack (s.clock + 1) = (s', r)) ∨
      ∃ frame stack, a = .returned ∧ s.stack = frame :: stack ∧
        proceed (D.finish s.registry frame.running) frame.begun frame.rest stack (s.clock + 1) = (s', r) := by
  cases a with
  | op o =>
    cases h
    exact Or.inl ⟨o, rfl, rfl, rfl⟩
  | dispatch d =>
    simp only [step] at h
    split at h
    · cases h
    · rename_i items hitems
      exact Or.inr (Or.inl ⟨d, items, rfl, hitems, Option.some.inj h⟩)
  | returned =>
    simp only [step] at h
    split at h
    · cases h
    · rename_i frame stack hstack
      exact Or.inr (Or.inr ⟨frame, stack, rfl, hstack, Option.some.inj h⟩)

/-- The registry and the clock are not touched when the next copy is called. -/
theorem proceed_registry {registry : ρ} {begun clock : Nat} {items : List κ}
    {stack : List (Frame κ)} {s' : State ρ κ}
    {r : Option (Call κ)} (h : proceed registry begun items stack clock = (s', r)) :
    s'.registry = registry ∧ s'.clock = clock := by
  cases items with
  | nil =>
    cases h
    exact ⟨rfl, rfl⟩
  | cons item rest =>
    cases h
    exact ⟨rfl, rfl⟩

/-- A dispatch that runs afterwards is an old one, or the one that goes on with its copies. -/
theorem mem_stack_proceed {registry : ρ} {begun clock : Nat} {items : List κ} {stack : List (Frame κ)}
    {s' : State ρ κ} {r : Option (Call κ)} (h : proceed registry begun items stack clock = (s', r))
    {frame : Frame κ}
    (hframe : frame ∈ s'.stack) : frame ∈ stack ∨ frame.begun = begun ∧ frame.running :: frame.rest = items := by
  cases items with
  | nil =>
    cases h
    exact Or.inl hframe
  | cons item rest =>
    cases h
    rcases List.mem_cons.mp hframe with rfl | hold
    · exact Or.inr ⟨rfl, rfl⟩
    · exact Or.inl hold

/-- A dispatch that runs began before now. -/
theorem begun_lt_clock {s : State ρ κ} {registry : ρ} {actions : List (Move ω δ)} {out : List (Option (Call κ))}
    (hrun : runOps (step D) (.init registry) actions = some (s, out)) :
    ∀ frame ∈ s.stack, frame.begun < s.clock := by
  apply runOps_inv (fun s _ _ => ∀ frame ∈ s.stack, frame.begun < s.clock) ?_ ?_ hrun
  · intro s _ _ a s' r h hstep frame hframe
    rcases step_cases hstep with ⟨o, rfl, rfl, rfl⟩ | ⟨d, items, rfl, hitems, hnext⟩ | ⟨top, stack, rfl, hstack, hnext⟩
    · exact Nat.lt_succ_of_lt (h frame hframe)
    · rw [(proceed_registry hnext).2]
      rcases mem_stack_proceed hnext hframe with hold | ⟨hnow, -⟩
      · exact Nat.lt_succ_of_lt (h frame hold)
      · rw [hnow]
        exact Nat.lt_succ_self _
    · rw [(proceed_registry hnext).2]
      rw [hstack] at h
      rcases mem_stack_proceed hnext hframe with hold | ⟨hsame, -⟩
      · exact Nat.lt_succ_of_lt (h frame (List.mem_cons_of_mem top hold))
      · rw [hsame]
        exact Nat.lt_succ_of_lt (h top (List.mem_cons_self ..))
  · intro frame hframe
    cases hframe

/-! ## A dispatch during which nothing else happens -/

theorem run_returns (begun : Nat) :
    ∀ (items : List κ) (item : κ) (registry : ρ) (stack : List (Frame κ)) (clock : Nat),
      runOps (step D) ⟨registry, ⟨item, items, begun⟩ :: stack,
        clock⟩ (List.replicate (items.length + 1) .returned) =
        some (⟨(item :: items).foldl D.finish registry, stack, clock + (items.length + 1)⟩,
          items.map (fun item => some ⟨item, begun⟩) ++ [none])
  | [], _, _, _, _ => rfl
  | next :: items, item, registry, stack, clock => by
    have hrest := run_returns begun items next (D.finish registry item) stack (clock + 1)
    rw [List.replicate_succ, runOps]
    simp only [step, proceed]
    rw [List.length_cons, hrest]
    simp only [List.foldl_cons, List.map_cons, List.cons_append, Option.some.injEq, Prod.mk.injEq, State.mk.injEq,
      true_and, and_true]
    omega

/-- **A dispatch on its own** calls the whole copy in order, and finishes each call. -/
theorem run_dispatch {registry : ρ} {d : δ} {items : List κ} (hitems : D.snapshot registry d = some items)
    (stack : List (Frame κ)) (clock : Nat) :
    runOps (step D) ⟨registry, stack, clock⟩ (.dispatch d :: List.replicate items.length .returned) =
      some (⟨items.foldl D.finish registry, stack, clock + 1 + items.length⟩,
        items.map (fun item => some ⟨item, clock⟩) ++ [none]) := by
  rw [runOps]
  simp only [step, hitems]
  cases items with
  | nil => rfl
  | cons item rest =>
    simp only [proceed]
    rw [List.length_cons, run_returns]
    rfl

/-! ## What waits is called -/

/-- The copies still to be called by the dispatches that run. -/
def waiting (p : κ → Bool) (stack : List (Frame κ)) : Nat := (stack.map fun frame => frame.rest.countP p).sum

/-- The calls made. -/
def called (p : κ → Bool) (out : List (Option (Call κ))) : Nat := out.countP fun r => r.any fun call => p call.item

variable {p : κ → Bool} {out : List (Option (Call κ))}

theorem called_concat (r : Option (Call κ)) : called p (out ++ [r]) = called p out + called p [r] :=
  List.countP_append

theorem called_proceed {registry : ρ} {begun clock : Nat} {items : List κ} {stack : List (Frame κ)} {s' : State ρ κ}
    {r : Option (Call κ)} (h : proceed registry begun items stack clock = (s', r)) :
    called p [r] + waiting p s'.stack = items.countP p + waiting p stack := by
  cases items with
  | nil =>
    cases h
    show 0 + waiting p stack = 0 + waiting p stack
    rfl
  | cons item rest =>
    cases h
    have hcalled : called p [some ⟨item, begun⟩] = if p item then 1 else 0 := by
      unfold called
      rw [List.countP_singleton]
      rfl
    show called p [some ⟨item, begun⟩] + (rest.countP p + waiting p stack) = _
    rw [hcalled, List.countP_cons]
    omega

/-- A call is of the dispatch that goes on. -/
theorem call_proceed {registry : ρ} {begun clock : Nat} {items : List κ} {stack : List (Frame κ)} {s' : State ρ κ}
    {call : Call κ} (h : proceed registry begun items stack clock = (s', some call)) :
    call.begun = begun ∧ call.item ∈ items := by
  cases items with
  | nil => cases h
  | cons item rest =>
    cases h
    exact ⟨rfl, List.mem_cons_self ..⟩

/-! ## What is not copied any more -/

/-- From a state where no dispatch that begins copies any of them: they are called only by the
dispatches that ran already, once for each copy that waits. -/
structure QuietInv (p : κ → Bool) (I : ρ → Prop) (s₀ s : State ρ κ) (out : List (Option (Call κ))) : Prop where
  registry : I s.registry
  clock : s₀.clock ≤ s.clock
  accounted : called p out + waiting p s.stack = waiting p s₀.stack
  fresh : ∀ frame ∈ s.stack, s₀.clock ≤ frame.begun → ∀ item ∈ frame.rest, p item = false
  old : ∀ call, some call ∈ out → p call.item = true → call.begun < s₀.clock

section Quiet

variable {I : ρ → Prop} {s₀ s s' : State ρ κ}

/-- The next copy of a dispatch is called: none of them if it began afterwards. -/
theorem QuietInv.proceed (h : QuietInv p I s₀ s out) {registry : ρ} {begun clock : Nat} {items : List κ}
    {stack : List (Frame κ)} {r : Option (Call κ)} (hnext : proceed registry begun items stack clock = (s', r))
    (hI : I registry) (hclock : s₀.clock ≤ clock) (hstack : ∀ frame ∈ stack, frame ∈ s.stack)
    (hcount : items.countP p + waiting p stack = waiting p s.stack)
    (hitems : s₀.clock ≤ begun → ∀ item ∈ items, p item = false) : QuietInv p I s₀ s' (out ++ [r]) := by
  obtain ⟨hregistry', hclock'⟩ := proceed_registry hnext
  constructor
  · rw [hregistry']
    exact hI
  · rw [hclock']
    exact hclock
  · have haccounted := h.accounted
    have hcalled := called_proceed (p := p) hnext
    rw [called_concat]
    omega
  · intro frame hframe hbegun item hitem
    rcases mem_stack_proceed hnext hframe with hold | ⟨rfl, hnew⟩
    · exact h.fresh frame (hstack frame hold) hbegun item hitem
    · exact hitems hbegun item (hnew ▸ List.mem_cons_of_mem _ hitem)
  · intro call hcall hp
    rcases List.mem_append.mp hcall with hbefore | hlast
    · exact h.old call hbefore hp
    · rw [← List.mem_singleton.mp hlast] at hnext
      obtain ⟨rfl, hitem⟩ := call_proceed hnext
      apply Nat.lt_of_not_le
      intro hbegun
      rw [hitems hbegun call.item hitem] at hp
      cases hp

theorem QuietInv.step {allowed : ω → Prop} (happly : ∀ registry o, I registry → allowed o → I (D.apply registry o))
    (hfinish : ∀ registry item, I registry → I (D.finish registry item))
    (hsnapshot : ∀ registry d items, I registry → D.snapshot registry d = some items →
      ∀ item ∈ items, p item = false)
    (h : QuietInv p I s₀ s out) {a : Move ω δ} (hallowed : ∀ o, a = .op o → allowed o) {r : Option (Call κ)}
    (hstep : step D s a = some (s', r)) : QuietInv p I s₀ s' (out ++ [r]) := by
  have hclock := h.clock
  rcases step_cases hstep with ⟨o, rfl, rfl, rfl⟩ | ⟨d, items, rfl, hitems, hnext⟩ | ⟨frame, stack, rfl, hstack, hnext⟩
  · constructor
    · exact happly s.registry o h.registry (hallowed o rfl)
    · exact Nat.le_succ_of_le hclock
    · rw [called_concat]
      exact h.accounted
    · exact h.fresh
    · intro call hcall hp
      rcases List.mem_append.mp hcall with hbefore | hlast
      · exact h.old call hbefore hp
      · cases List.mem_singleton.mp hlast
  · have hnone := hsnapshot s.registry d items h.registry hitems
    apply h.proceed hnext h.registry (Nat.le_succ_of_le hclock) (fun frame hframe => hframe)
    · rw [List.countP_eq_zero.mpr (fun item hitem => by rw [hnone item hitem]; exact Bool.false_ne_true),
        Nat.zero_add]
    · intro _
      exact hnone
  · apply h.proceed hnext (hfinish s.registry frame.running h.registry) (Nat.le_succ_of_le hclock)
    · intro other hother
      rw [hstack]
      exact List.mem_cons_of_mem frame hother
    · rw [hstack]
      rfl
    · intro hbegun
      exact h.fresh frame (hstack ▸ List.mem_cons_self ..) hbegun

/-- **What is not copied any more** is called by the dispatches that run already, and by no other. -/
theorem calls_of_quiet {allowed : ω → Prop} (happly : ∀ registry o, I registry → allowed o → I (D.apply registry o))
    (hfinish : ∀ registry item, I registry → I (D.finish registry item))
    (hsnapshot : ∀ registry d items, I registry → D.snapshot registry d = some items →
      ∀ item ∈ items, p item = false)
    {actions : List (Move ω δ)} (hallowed : ∀ o, .op o ∈ actions → allowed o)
    (hI : I s₀.registry) (hbegun : ∀ frame ∈ s₀.stack, frame.begun < s₀.clock)
    (hrun : runOps (step D) s₀ actions = some (s, out)) : QuietInv p I s₀ s out := by
  have halong : Along (step D) (fun _ a => ∀ o, a = .op o → allowed o) s₀ actions := by
    apply along_of_forall
    intro a ha _ o heq
    exact hallowed o (heq ▸ ha)
  have hstart : QuietInv p I s₀ s₀ [] := by
    constructor
    · exact hI
    · exact Nat.le_refl _
    · exact Nat.zero_add _
    · intro frame hframe hle
      exact absurd (hbegun frame hframe) (Nat.not_lt_of_le hle)
    · intro call hcall
      cases hcall
  exact runOps_trace (fun s _ out => QuietInv p I s₀ s out)
    (fun _ _ _ _ _ _ h hok hstep => h.step happly hfinish hsnapshot hok hstep) actions s₀ s [] [] out hstart halong hrun

/-- The calls made afterwards are of dispatches that ran already, one of each copy that waited or
still waits. -/
def CalledByRunning (p : κ → Bool) (s₀ s : State ρ κ) (out : List (Option (Call κ))) : Prop :=
  (∀ call, some call ∈ out → p call.item = true → call.begun < s₀.clock) ∧
    called p out + waiting p s.stack = waiting p s₀.stack

theorem QuietInv.calledByRunning (h : QuietInv p I s₀ s out) : CalledByRunning p s₀ s out := ⟨h.old, h.accounted⟩

end Quiet

/-! ## What is erased after its call -/

/-- A dispatch calls an item, or has it still to call. -/
def Frame.Holds (p : κ → Bool) (frame : Frame κ) : Prop := ∃ item ∈ frame.running :: frame.rest, p item = true

/-- Since the clock `n` they were called or wait to be called once at most; and while one is still
registered then, the dispatch that copied it runs. -/
structure OnceInv (p : κ → Bool) (e : κ) (I Has : ρ → Prop) (n : Nat) (s : State ρ κ)
    (out : List (Option (Call κ))) :
    Prop where
  registry : I s.registry
  clock : n ≤ s.clock
  old : ∀ frame ∈ s.stack, frame.begun < n → ∀ item ∈ frame.rest, p item = false
  fresh : ∀ frame ∈ s.stack, n ≤ frame.begun → ∀ item ∈ frame.running :: frame.rest, p item = true → item = e
  once : called p out + waiting p s.stack ≤ 1
  held : Has s.registry → 0 < called p out + waiting p s.stack → ∃ frame ∈ s.stack, n ≤ frame.begun ∧ frame.Holds p

section Once

variable {e : κ} {I Has : ρ → Prop} {n : Nat} {s₀ s s' : State ρ κ}

/-- One item at most is registered, which is `e`, and nothing that follows registers one again. -/
structure Registered (D : Dispatch ρ κ ω δ) (p : κ → Bool) (e : κ) (I Has : ρ → Prop)
    (allowed : ω → Prop) : Prop where
  apply : ∀ registry o, I registry → allowed o → I (D.apply registry o) ∧ (Has (D.apply registry o) → Has registry)
  finish : ∀ registry item, I registry → I (D.finish registry item) ∧ (Has (D.finish registry item) → Has registry)
  snapshot : ∀ registry d items, I registry → D.snapshot registry d = some items →
    items.countP p ≤ 1 ∧ (0 < items.countP p → Has registry) ∧ ∀ item ∈ items, p item = true → item = e

/-- While the item is registered, no dispatch that copies it begins when one that copied it since
still runs; and when its call returns, it is erased. -/
def Erased (D : Dispatch ρ κ ω δ) (p : κ → Bool) (e : κ) (Has : ρ → Prop) (n : Nat)
    (s : State ρ κ) : Move ω δ → Prop
  | .op _ => True
  | .dispatch d => ∀ items, D.snapshot s.registry d = some items → 0 < items.countP p →
      ∀ frame ∈ s.stack, n ≤ frame.begun → ¬ frame.Holds p
  | .returned => ∀ frame ∈ s.stack.head?, n ≤ frame.begun → frame.running = e → ¬ Has (D.finish s.registry e)

theorem mem_proceed {registry : ρ} {begun clock : Nat} {items : List κ} {stack : List (Frame κ)}
    {r : Option (Call κ)}
    (h : proceed registry begun items stack clock = (s', r)) {frame : Frame κ} (hframe : frame ∈ stack) :
    frame ∈ s'.stack := by
  cases items with
  | nil =>
    cases h
    exact hframe
  | cons item rest =>
    cases h
    exact List.mem_cons_of_mem _ hframe

theorem holds_proceed {registry : ρ} {begun clock : Nat} {items : List κ} {stack : List (Frame κ)}
    {r : Option (Call κ)} (h : proceed registry begun items stack clock = (s', r)) (hcount : 0 < items.countP p) :
    ∃ frame ∈ s'.stack, frame.begun = begun ∧ frame.Holds p := by
  cases items with
  | nil => cases hcount
  | cons item rest =>
    cases h
    exact ⟨⟨item, rest, begun⟩, List.mem_cons_self .., rfl, List.countP_pos_iff.mp hcount⟩

/-- The next copy of a dispatch is called. -/
theorem OnceInv.proceed (h : OnceInv p e I Has n s out) {registry : ρ} {begun clock : Nat} {items : List κ}
    {stack : List (Frame κ)} {r : Option (Call κ)} (hnext : proceed registry begun items stack clock = (s', r))
    (hI : I registry) (hclock : n ≤ clock) (hstack : ∀ frame ∈ stack, frame ∈ s.stack)
    (hcount : called p out + (items.countP p + waiting p stack) ≤ 1)
    (hold : begun < n → ∀ item ∈ items, p item = false)
    (hfresh : n ≤ begun → ∀ item ∈ items, p item = true → item = e)
    (hheld : Has registry → 0 < called p out + (items.countP p + waiting p stack) →
      n ≤ begun ∧ 0 < items.countP p ∨ ∃ frame ∈ stack, n ≤ frame.begun ∧ frame.Holds p) :
    OnceInv p e I Has n s' (out ++ [r]) := by
  obtain ⟨hregistry', hclock'⟩ := proceed_registry hnext
  have hcalled := called_proceed (p := p) hnext
  constructor
  · rw [hregistry']
    exact hI
  · rw [hclock']
    exact hclock
  · intro frame hframe hlt item hitem
    rcases mem_stack_proceed hnext hframe with hbefore | ⟨rfl, hnew⟩
    · exact h.old frame (hstack frame hbefore) hlt item hitem
    · exact hold hlt item (hnew ▸ List.mem_cons_of_mem _ hitem)
  · intro frame hframe hbegun
    rcases mem_stack_proceed hnext hframe with hbefore | ⟨rfl, hnew⟩
    · exact h.fresh frame (hstack frame hbefore) hbegun
    · rw [hnew]
      exact hfresh hbegun
  · rw [called_concat]
    omega
  · rw [called_concat, hregistry']
    intro hhas htotal
    rcases hheld hhas (by omega) with ⟨hbegun, hpos⟩ | ⟨frame, hframe, hholds⟩
    · obtain ⟨frame, hframe, heq, hholds⟩ := holds_proceed hnext hpos
      exact ⟨frame, hframe, heq ▸ hbegun, hholds⟩
    · exact ⟨frame, mem_proceed hnext hframe, hholds⟩

/-- A dispatch begins. -/
theorem OnceInv.dispatch {allowed : ω → Prop} (hreg : Registered D p e I Has allowed)
    (h : OnceInv p e I Has n s out) {d : δ} {items : List κ} (hitems : D.snapshot s.registry d = some items)
    (herased : Erased D p e Has n s (.dispatch d)) {r : Option (Call κ)}
    (hnext : Snapshot.proceed s.registry s.clock items s.stack (s.clock + 1) = (s', r)) :
    OnceInv p e I Has n s' (out ++ [r]) := by
  obtain ⟨hcount, hhas, hitem⟩ := hreg.snapshot s.registry d items h.registry hitems
  have honce := h.once
  -- nothing was called and nothing waits when they are copied
  have hfirst : 0 < items.countP p → called p out + waiting p s.stack = 0 := by
    intro hpos
    apply Nat.eq_zero_of_not_pos
    intro hbefore
    obtain ⟨frame, hframe, hbegun, hholds⟩ := h.held (hhas hpos) hbefore
    exact herased items hitems hpos frame hframe hbegun hholds
  apply h.proceed hnext h.registry (Nat.le_succ_of_le h.clock) (fun _ hframe => hframe)
  · rcases Nat.eq_zero_or_pos (items.countP p) with hzero | hpos
    · omega
    · have hbefore := hfirst hpos
      omega
  · intro hlt
    exact absurd hlt (Nat.not_lt_of_le h.clock)
  · intro _
    exact hitem
  · intro hregistered htotal
    rcases Nat.eq_zero_or_pos (items.countP p) with hzero | hpos
    · exact Or.inr (h.held hregistered (by omega))
    · exact Or.inl ⟨h.clock, hpos⟩

/-- The call on top returns. -/
theorem OnceInv.returned {allowed : ω → Prop} (hreg : Registered D p e I Has allowed)
    (h : OnceInv p e I Has n s out)
    {frame : Frame κ} {stack : List (Frame κ)} (hstack : s.stack = frame :: stack)
    (herased : Erased D p e Has n s .returned) {r : Option (Call κ)}
    (hnext : Snapshot.proceed (D.finish s.registry frame.running) frame.begun frame.rest stack (s.clock + 1) =
    (s', r)) :
    OnceInv p e I Has n s' (out ++ [r]) := by
  obtain ⟨hI, hHas⟩ := hreg.finish s.registry frame.running h.registry
  have htop : frame ∈ s.stack := hstack ▸ List.mem_cons_self ..
  have hwaiting : waiting p s.stack = frame.rest.countP p + waiting p stack := by
    rw [hstack]
    rfl
  apply h.proceed hnext hI (Nat.le_succ_of_le h.clock)
  · intro other hother
    rw [hstack]
    exact List.mem_cons_of_mem frame hother
  · rw [← hwaiting]
    exact h.once
  · exact h.old frame htop
  · intro hbegun item hitem
    exact h.fresh frame htop hbegun item (List.mem_cons_of_mem _ hitem)
  · rw [← hwaiting]
    intro hhas htotal
    obtain ⟨other, hother, hbegun, item, hitem, hp⟩ := h.held (hHas hhas) htotal
    rw [hstack] at hother
    rcases List.mem_cons.mp hother with rfl | hmem
    · refine Or.inl ⟨hbegun, ?_⟩
      rcases List.mem_cons.mp hitem with rfl | hwaits
      · -- its call returns, so it is erased
        have he := h.fresh other htop hbegun other.running (List.mem_cons_self ..) hp
        have hgone := herased other (by rw [hstack]; rfl) hbegun he
        rw [he] at hhas
        exact absurd hhas hgone
      · exact List.countP_pos_iff.mpr ⟨item, hwaits, hp⟩
    · exact Or.inr ⟨other, hmem, hbegun, item, hitem, hp⟩

theorem OnceInv.step {allowed : ω → Prop} (hreg : Registered D p e I Has allowed) (h : OnceInv p e I Has n s out)
    {a : Move ω δ} (hallowed : ∀ o, a = .op o → allowed o) (herased : Erased D p e Has n s a) {r : Option (Call κ)}
    (hstep : step D s a = some (s', r)) : OnceInv p e I Has n s' (out ++ [r]) := by
  rcases step_cases hstep with ⟨o, rfl, rfl, rfl⟩ | ⟨d, items, rfl, hitems, hnext⟩ | ⟨frame, stack, rfl, hstack, hnext⟩
  · obtain ⟨hI, hHas⟩ := hreg.apply s.registry o h.registry (hallowed o rfl)
    constructor
    · exact hI
    · exact Nat.le_succ_of_le h.clock
    · exact h.old
    · exact h.fresh
    · rw [called_concat]
      exact h.once
    · rw [called_concat]
      intro hhas hpos
      exact h.held (hHas hhas) hpos
  · exact h.dispatch hreg hitems herased hnext
  · exact h.returned hreg hstack herased hnext

/-- **What is erased after its call** is called once at most. -/
theorem called_once {allowed : ω → Prop} (hreg : Registered D p e I Has allowed) {ok : State ρ κ → Move ω δ → Prop}
    (hok : ∀ s a, I s.registry → ok s a → Erased D p e Has s₀.clock s a) {actions : List (Move ω δ)}
    (hallowed : ∀ o, .op o ∈ actions → allowed o) (hI : I s₀.registry)
    (hbegun : ∀ frame ∈ s₀.stack, frame.begun < s₀.clock) (hwaiting : waiting p s₀.stack = 0)
    (halong : Along (step D) ok s₀ actions) (hrun : runOps (step D) s₀ actions = some (s, out)) :
    called p out ≤ 1 := by
  have hstart : OnceInv p e I Has s₀.clock s₀ [] := by
    constructor
    · exact hI
    · exact Nat.le_refl _
    · intro frame hframe _ item hitem
      have hzero : frame.rest.countP p = 0 :=
        List.sum_eq_zero_iff_forall_eq_nat.mp hwaiting _ (List.mem_map_of_mem hframe)
      exact Bool.eq_false_iff.mpr (List.countP_eq_zero.mp hzero item hitem)
    · intro frame hframe hle
      exact absurd (hbegun frame hframe) (Nat.not_lt_of_le hle)
    · rw [hwaiting]
      exact Nat.zero_le 1
    · intro _ hpos
      rw [hwaiting] at hpos
      cases hpos
  have hops : ∀ a ∈ actions, ∀ o, a = .op o → allowed o := by
    intro a ha o heq
    exact hallowed o (heq ▸ ha)
  have hfinal : OnceInv p e I Has s₀.clock s out :=
    runOps_trace (fun s _ out => OnceInv p e I Has s₀.clock s out)
      (fun s _ _ a _ _ h hboth hstep => h.step hreg hboth.2 (hok s a h.registry hboth.1) hstep) actions s₀ s [] [] out
      hstart (halong.and_of_forall hops) hrun
  have honce := hfinal.once
  omega

end Once

end Libws.Snapshot
