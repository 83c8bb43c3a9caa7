import Mathlib.Data.List.Forall2

/-!
# Runs of operation machines and forward simulation

A machine takes one operation at a time: `step s i` is `some (s', r)` when the operation `i`
finishes in the state `s` with the result `r`, and `none` when it has no defined outcome.

* `runOps` — a whole list of operations, with the list of results; `runOps_cons` takes off the first one.
* `specRun` — the same for a total specification machine.
* `Admissible` — every operation of the list meets its precondition when it is reached.
* `runOps_refines` — a simulation of single steps is a simulation of whole runs: an admissible
  run is never undefined, ends in related states and returns related results.
* `runOps_needs` — and what a defined run tells about the conditions it was issued under.
* `agree_iff` — two machines that simulate one specification give the same results on a run exactly when
  it is admissible.
* `follows_of_simulation` — a simulation of partial machines: what the first one defines, the second one does too.
* `runOps_trace`, `runOps_inv` — what every defined step keeps, every defined run keeps.
* `reaches_of_rank` — a machine that can always take a step down, goes on to the end.
* `along_iff_along` — two conditions on the steps that are equivalent as long as they are met.
* `always_iff_along`, `last_iff_along` — a property of every state of a run, and one that is lost for
  good, as a condition on its steps.
-/

set_option autoImplicit false

namespace Libws.Machine

variable {σ τ ι ρ π : Type}

/-- Run a list of operations; `none` as soon as one has no defined outcome. -/
def runOps (step : σ → ι → Option (σ × ρ)) : σ → List ι → Option (σ × List ρ)
  | s, [] => some (s, [])
  | s, i :: is =>
    match step s i with
    | none => none
    | some (s', r) =>
      match runOps step s' is with
      | none => none
      | some (s'', rs) => some (s'', r :: rs)

/-- The first step of a run, and the rest. -/
theorem runOps_cons {step : σ → ι → Option (σ × ρ)} {i : ι} {is : List ι} {s e : σ} {rs : List ρ} :
    runOps step s (i :: is) = some (e, rs) ↔
      ∃ s' r rs', step s i = some (s', r) ∧ runOps step s' is = some (e, rs') ∧ rs = r :: rs' := by
  constructor
  · intro h
    simp only [runOps] at h
    split at h
    · cases h
    rename_i s' r h₁
    split at h
    · cases h
    rename_i s'' rs' h₂
    cases h
    exact ⟨s', r, rs', h₁, h₂, rfl⟩
  · rintro ⟨s', r, rs', h₁, h₂, rfl⟩
    simp only [runOps, h₁, h₂]

theorem runOps_append {step : σ → ι → Option (σ × ρ)} :
    ∀ (is js : List ι) (s s' s'' : σ) (rs rs' : List ρ), runOps step s is = some (s', rs) →
      runOps step s (is ++ js) = some (s'', rs') →
      ∃ ts, runOps step s' js = some (s'', ts) ∧ rs' = rs ++ ts
  | [], js, s, s', s'', rs, rs', h, hall => by
    cases h
    exact ⟨rs', hall, rfl⟩
  | i :: is, js, s, s', s'', rs, rs', h, hall => by
    obtain ⟨s₁, r₁, rs₂, h₁, h₂, rfl⟩ := runOps_cons.mp h
    obtain ⟨s₁', r₁', rs₃, h₁', h₃, rfl⟩ := runOps_cons.mp hall
    cases h₁.symm.trans h₁'
    obtain ⟨ts, hts, rfl⟩ := runOps_append is js s₁ s' s'' rs₂ rs₃ h₂ h₃
    exact ⟨ts, hts, rfl⟩

/-- A run, and one that goes on from its end. -/
theorem runOps_concat {step : σ → ι → Option (σ × ρ)} :
    ∀ {is js : List ι} {s s' s'' : σ} {rs ts : List ρ}, runOps step s is = some (s', rs) →
      runOps step s' js = some (s'', ts) → runOps step s (is ++ js) = some (s'', rs ++ ts)
  | [], _, _, _, _, _, _, h, h' => by
    cases h
    exact h'
  | i :: is, js, s, s', s'', rs, ts, h, h' => by
    obtain ⟨s₁, r₁, rs₂, h₁, h₂, rfl⟩ := runOps_cons.mp h
    exact runOps_cons.mpr ⟨s₁, r₁, rs₂ ++ ts, h₁, runOps_concat h₂ h', rfl⟩

/-- Run a list of operations of a total machine. -/
def specRun (spec : τ → ι → τ × π) : τ → List ι → τ × List π
  | t, [] => (t, [])
  | t, i :: is => ((specRun spec (spec t i).1 is).1, (spec t i).2 :: (specRun spec (spec t i).1 is).2)

/-- Every operation meets the precondition `ok` in the specification state that it is issued in. -/
def Admissible (spec : τ → ι → τ × π) (ok : τ → ι → Prop) : τ → List ι → Prop
  | _, [] => True
  | t, i :: is => ok t i ∧ Admissible spec ok (spec t i).1 is

/-- **Simulation of runs.**  If every admissible step is defined, keeps `R` and returns a result
in the relation `Q` to the specified one, so does every admissible run. -/
theorem runOps_refines {step : σ → ι → Option (σ × ρ)} {spec : τ → ι → τ × π}
    {ok : τ → ι → Prop} {R : σ → τ → Prop} {Q : ρ → π → Prop}
    (hstep : ∀ s t i, R s t → ok t i →
      ∃ s' r, step s i = some (s', r) ∧ R s' (spec t i).1 ∧ Q r (spec t i).2) :
    ∀ (is : List ι) (s : σ) (t : τ), R s t → Admissible spec ok t is →
      ∃ s' rs, runOps step s is = some (s', rs) ∧ R s' (specRun spec t is).1 ∧
        List.Forall₂ Q rs (specRun spec t is).2
  | [], s, _, hR, _ => ⟨s, [], rfl, hR, .nil⟩
  | i :: is, s, t, hR, hadm => by
    obtain ⟨s₁, r₁, hs₁, hR₁, hQ₁⟩ := hstep s t i hR hadm.1
    obtain ⟨s₂, rs₂, hs₂, hR₂, hQ₂⟩ := runOps_refines hstep is s₁ (spec t i).1 hR₁ hadm.2
    exact ⟨s₂, r₁ :: rs₂, runOps_cons.mpr ⟨s₁, r₁, rs₂, hs₁, hs₂, rfl⟩, hR₂, .cons hQ₁ hQ₂⟩

theorem Admissible.and {spec : τ → ι → τ × π} {ok ok' : τ → ι → Prop} :
    ∀ {is : List ι} {t : τ}, Admissible spec ok t is → Admissible spec ok' t is →
      Admissible spec (fun t i => ok t i ∧ ok' t i) t is
  | [], _, _, _ => trivial
  | _ :: _, _, h, h' => ⟨⟨h.1, h'.1⟩, h.2.and h'.2⟩

/-- **What a defined run needs.**  If every admissible step that is defined meets the condition
`need`, so does every admissible run. -/
theorem runOps_needs {step : σ → ι → Option (σ × ρ)} {spec : τ → ι → τ × π} {ok need : τ → ι → Prop}
    {R : σ → τ → Prop}
    (hstep : ∀ s t i s' r, R s t → ok t i → step s i = some (s', r) → need t i ∧ R s' (spec t i).1) :
    ∀ (is : List ι) (s : σ) (t : τ), R s t → Admissible spec ok t is →
      ∀ {s' : σ} {rs : List ρ}, runOps step s is = some (s', rs) → Admissible spec need t is
  | [], _, _, _, _, _, _, _ => trivial
  | i :: is, s, t, hR, hadm, s', rs, hrun => by
    obtain ⟨s₁, r₁, rs₂, h₁, h₂, -⟩ := runOps_cons.mp hrun
    obtain ⟨hneed, hR₁⟩ := hstep s t i s₁ r₁ hR hadm.1 h₁
    exact ⟨hneed, runOps_needs hstep is s₁ (spec t i).1 hR₁ hadm.2 h₂⟩

/-- Two machines take the same operations, and every one has the same result. -/
def Agree {σ' : Type} (step : σ → ι → Option (σ × ρ)) (step' : σ' → ι → Option (σ' × ρ)) (s : σ) (s' : σ')
    (is : List ι) : Prop :=
  ∃ e e' rs, runOps step s is = some (e, rs) ∧ runOps step' s' is = some (e', rs)

theorem agree_cons {σ' : Type} {step : σ → ι → Option (σ × ρ)} {step' : σ' → ι → Option (σ' × ρ)} {s s₁ : σ}
    {s' s₁' : σ'} {i : ι} {is : List ι} {r r' : ρ} (h : step s i = some (s₁, r))
    (h' : step' s' i = some (s₁', r')) :
    Agree step step' s s' (i :: is) ↔ r = r' ∧ Agree step step' s₁ s₁' is := by
  constructor
  · rintro ⟨e, e', rs, hrun, hrun'⟩
    obtain ⟨s₂, r₂, rs₂, h₂, hrest, rfl⟩ := runOps_cons.mp hrun
    obtain ⟨s₂', r₂', rs₂', h₂', hrest', heq⟩ := runOps_cons.mp hrun'
    cases h.symm.trans h₂
    cases h'.symm.trans h₂'
    cases heq
    exact ⟨rfl, _, _, _, hrest, hrest'⟩
  · rintro ⟨rfl, e, e', rs, hrun, hrun'⟩
    exact ⟨e, e', r :: rs, runOps_cons.mpr ⟨s₁, r, rs, h, hrun, rfl⟩, runOps_cons.mpr ⟨s₁', r, rs, h', hrun', rfl⟩⟩

/-- **When two machines agree.**  The second one simulates the specification in every step, the first one in the
admissible steps, and in the others its result is another one. -/
theorem agree_iff {σ' : Type} {step : σ → ι → Option (σ × ρ)} {step' : σ' → ι → Option (σ' × ρ)}
    {spec : τ → ι → τ × ρ} {ok : τ → ι → Prop} {R : σ → τ → Prop} {R' : σ' → τ → Prop}
    (hstep : ∀ s t i, R s t → ∃ s₁ r, step s i = some (s₁, r) ∧ (ok t i → R s₁ (spec t i).1) ∧
      (r = (spec t i).2 ↔ ok t i))
    (hstep' : ∀ s t i, R' s t → ∃ s₁ r, step' s i = some (s₁, r) ∧ R' s₁ (spec t i).1 ∧ r = (spec t i).2) :
    ∀ (is : List ι) (s : σ) (s' : σ') (t : τ), R s t → R' s' t →
      (Agree step step' s s' is ↔ Admissible spec ok t is)
  | [], s, s', _, _, _ => ⟨fun _ => trivial, fun _ => ⟨s, s', [], rfl, rfl⟩⟩
  | i :: is, s, s', t, h, h' => by
    obtain ⟨s₁, r, hrun, hR, hok⟩ := hstep s t i h
    obtain ⟨s₁', r', hrun', hR', rfl⟩ := hstep' s' t i h'
    rw [agree_cons hrun hrun', hok, Admissible]
    refine and_congr_right fun hi => ?_
    exact agree_iff hstep hstep' is s₁ s₁' (spec t i).1 (hR hi) hR'

/-- The second machine follows the first one: where a run of the first is defined, so is that of the second, and the
results are in the relation `Q`. -/
def Follows {σ' ρ' : Type} (step : σ → ι → Option (σ × ρ)) (step' : σ' → ι → Option (σ' × ρ')) (Q : ρ' → ρ → Prop)
    (s : σ) (s' : σ') : Prop :=
  ∀ is e rs, runOps step s is = some (e, rs) → ∃ e' rs', runOps step' s' is = some (e', rs') ∧ List.Forall₂ Q rs' rs

/-- **Simulation of partial machines.** -/
theorem follows_of_simulation {σ' ρ' : Type} {step : σ → ι → Option (σ × ρ)} {step' : σ' → ι → Option (σ' × ρ')}
    {Q : ρ' → ρ → Prop} {R : σ → σ' → Prop}
    (hstep : ∀ s s' i s₁ r, R s s' → step s i = some (s₁, r) → ∃ s₁' r', step' s' i = some (s₁', r') ∧
      R s₁ s₁' ∧ Q r' r)
    {s : σ} {s' : σ'} (h : R s s') : Follows step step' Q s s' := by
  intro is
  induction is generalizing s s' with
  | nil =>
    intro e rs hrun
    cases hrun
    exact ⟨s', [], rfl, .nil⟩
  | cons i is ih =>
    intro e rs hrun
    obtain ⟨s₁, r, rs₁, h₁, hrest, rfl⟩ := runOps_cons.mp hrun
    obtain ⟨s₁', r', h₁', hR, hQ⟩ := hstep s s' i s₁ r h h₁
    obtain ⟨e', rs', hrun', hQs⟩ := ih hR e rs₁ hrest
    exact ⟨e', r' :: rs', runOps_cons.mpr ⟨s₁', r', rs', h₁', hrun', rfl⟩, .cons hQ hQs⟩

/-- One step of a machine that is followed. -/
theorem Follows.next {σ' ρ' : Type} {step : σ → ι → Option (σ × ρ)} {step' : σ' → ι → Option (σ' × ρ')}
    {Q : ρ' → ρ → Prop} {s s₁ : σ} {s' s₁' : σ'} {i : ι} {r : ρ} {r' : ρ'} (h : Follows step step' Q s s')
    (hstep : step s i = some (s₁, r)) (hstep' : step' s' i = some (s₁', r')) :
    Q r' r ∧ Follows step step' Q s₁ s₁' := by
  have hall : ∀ is e rs, runOps step s₁ is = some (e, rs) →
      ∃ e' rs', runOps step' s₁' is = some (e', rs') ∧ Q r' r ∧ List.Forall₂ Q rs' rs := by
    intro is e rs hrun
    obtain ⟨e', rs', hrun', hQ⟩ := h (i :: is) e (r :: rs) (runOps_cons.mpr ⟨s₁, r, rs, hstep, hrun, rfl⟩)
    obtain ⟨s₂, r₂, rs₂, h₂, hrest, rfl⟩ := runOps_cons.mp hrun'
    cases hstep'.symm.trans h₂
    cases hQ with
    | cons hr hrs => exact ⟨e', rs₂, hrest, hr, hrs⟩
  refine ⟨?_, fun is e rs hrun => ?_⟩
  · obtain ⟨-, -, -, hr, -⟩ := hall [] s₁ [] rfl
    exact hr
  · obtain ⟨e', rs', hrun', -, hrs⟩ := hall is e rs hrun
    exact ⟨e', rs', hrun', hrs⟩

/-- The state after a run of a machine that is followed. -/
theorem Follows.run {σ' ρ' : Type} {step : σ → ι → Option (σ × ρ)} {step' : σ' → ι → Option (σ' × ρ')}
    {Q : ρ' → ρ → Prop} :
    ∀ {is : List ι} {s s₁ : σ} {s' s₁' : σ'} {rs : List ρ} {rs' : List ρ'}, Follows step step' Q s s' →
      runOps step s is = some (s₁, rs) → runOps step' s' is = some (s₁', rs') → Follows step step' Q s₁ s₁'
  | [], _, _, _, _, _, _, h, hrun, hrun' => by
    cases hrun
    cases hrun'
    exact h
  | i :: is, _, _, _, _, _, _, h, hrun, hrun' => by
    obtain ⟨s₂, r, rs₂, h₂, hrest, rfl⟩ := runOps_cons.mp hrun
    obtain ⟨s₂', r', rs₂', h₂', hrest', rfl⟩ := runOps_cons.mp hrun'
    exact (h.next h₂ h₂').2.run hrest hrest'

/-- Every operation of a run meets the condition `ok` in the state that it is issued in. -/
def Along (step : σ → ι → Option (σ × ρ)) (ok : σ → ι → Prop) : σ → List ι → Prop
  | _, [] => True
  | s, i :: is => ok s i ∧ ∀ s' r, step s i = some (s', r) → Along step ok s' is

/-- Operations that meet the condition in every state. -/
theorem along_of_forall {step : σ → ι → Option (σ × ρ)} {ok : σ → ι → Prop} :
    ∀ {is : List ι}, (∀ i ∈ is, ∀ s, ok s i) → ∀ s, Along step ok s is
  | [], _, _ => trivial
  | i :: _, h, s =>
    ⟨h i (List.mem_cons_self ..) s,
      fun s' _ _ => along_of_forall (fun j hj => h j (List.mem_cons_of_mem i hj)) s'⟩

theorem Along.and_of_forall {step : σ → ι → Option (σ × ρ)} {ok : σ → ι → Prop} {ok' : ι → Prop} :
    ∀ {is : List ι} {s : σ}, Along step ok s is → (∀ i ∈ is, ok' i) → Along step (fun s i => ok s i ∧ ok' i) s is
  | [], _, _, _ => trivial
  | i :: _, _, h, h' =>
    ⟨⟨h.1, h' i (List.mem_cons_self ..)⟩, fun s' r hstep =>
      (h.2 s' r hstep).and_of_forall fun j hj => h' j (List.mem_cons_of_mem i hj)⟩

/-- Two conditions on the steps that say the same as long as they are met. -/
theorem along_iff_along {step : σ → ι → Option (σ × ρ)} {ok ok' : σ → ι → Prop} (Inv : σ → Prop)
    (hiff : ∀ s i, Inv s → (ok s i ↔ ok' s i))
    (hkeep : ∀ s i s' r, Inv s → ok' s i → step s i = some (s', r) → Inv s') :
    ∀ (is : List ι) (s : σ), Inv s → (Along step ok s is ↔ Along step ok' s is)
  | [], _, _ => Iff.rfl
  | i :: is, s, hs => by
    rw [Along, Along, hiff s i hs]
    refine and_congr_right fun hi => forall_congr' fun s' => forall_congr' fun r => forall_congr' fun hstep => ?_
    exact along_iff_along Inv hiff hkeep is s' (hkeep s i s' r hs hi hstep)

instance Along.decidable {step : σ → ι → Option (σ × ρ)} {ok : σ → ι → Prop} [∀ s i, Decidable (ok s i)] :
    ∀ (s : σ) (is : List ι), Decidable (Along step ok s is)
  | _, [] => isTrue trivial
  | s, i :: is =>
    match hstep : step s i with
    | none =>
      decidable_of_iff (ok s i)
        ⟨fun hok => ⟨hok, fun s' r h => by rw [hstep] at h; cases h⟩, fun h => h.1⟩
    | some (s', r) =>
      have : Decidable (Along step ok s' is) := Along.decidable s' is
      decidable_of_iff (ok s i ∧ Along step ok s' is)
        ⟨fun h => ⟨h.1, fun s'' r' h' => by
          rw [hstep] at h'
          obtain ⟨rfl, -⟩ := Prod.mk.inj (Option.some.inj h')
          exact h.2⟩, fun h => ⟨h.1, h.2 s' r hstep⟩⟩

/-- `P` holds in every state of a run. -/
def Always (step : σ → ι → Option (σ × ρ)) (P : σ → Prop) : σ → List ι → Prop
  | s, [] => P s
  | s, i :: is => P s ∧ ∀ s' r, step s i = some (s', r) → Always step P s' is

theorem Always.head {step : σ → ι → Option (σ × ρ)} {P : σ → Prop} {s : σ} {is : List ι} (h : Always step P s is) :
    P s := by
  cases is with
  | nil => exact h
  | cons i is => exact h.1

instance Always.decidable {step : σ → ι → Option (σ × ρ)} {P : σ → Prop} [DecidablePred P] :
    ∀ (s : σ) (is : List ι), Decidable (Always step P s is)
  | s, [] => inferInstanceAs (Decidable (P s))
  | s, i :: is =>
    match hstep : step s i with
    | none =>
      decidable_of_iff (P s)
        ⟨fun hok => ⟨hok, fun s' r h => by rw [hstep] at h; cases h⟩, fun h => h.1⟩
    | some (s', r) =>
      have : Decidable (Always step P s' is) := Always.decidable s' is
      decidable_of_iff (P s ∧ Always step P s' is)
        ⟨fun h => ⟨h.1, fun s'' r' h' => by
          rw [hstep] at h'
          obtain ⟨rfl, -⟩ := Prod.mk.inj (Option.some.inj h')
          exact h.2⟩, fun h => ⟨h.1, h.2 s' r hstep⟩⟩

/-- The state that a run ends in is one of its states. -/
theorem Always.last {step : σ → ι → Option (σ × ρ)} {P : σ → Prop} :
    ∀ {is : List ι} {s s' : σ} {rs : List ρ}, Always step P s is → runOps step s is = some (s', rs) → P s'
  | [], _, _, _, h, hrun => by
    cases hrun
    exact h
  | i :: is, _, _, _, h, hrun => by
    obtain ⟨s₁, r₁, rs₂, h₁, h₂, rfl⟩ := runOps_cons.mp hrun
    exact (h.2 s₁ r₁ h₁).last h₂

/-- The invariant holds in every state of a run of steps that keep it. -/
theorem Along.always {step : σ → ι → Option (σ × ρ)} {P : σ → Prop} {ok : σ → ι → Prop} (Inv : σ → Prop)
    (hP : ∀ s, Inv s → P s) (hkeep : ∀ s i s' r, Inv s → ok s i → step s i = some (s', r) → Inv s') :
    ∀ {is : List ι} {s : σ}, Along step ok s is → Inv s → Always step P s is
  | [], s, _, hs => hP s hs
  | i :: _, s, h, hs =>
    ⟨hP s hs, fun s' r hstep => (h.2 s' r hstep).always Inv hP hkeep (hkeep s i s' r hs h.1 hstep)⟩

/-- **A property of every state is a condition on the steps.**  The invariant is kept by the allowed steps
that meet the condition, and an allowed step that keeps the property meets it. -/
theorem always_iff_along_of {step : σ → ι → Option (σ × ρ)} {P : σ → Prop} {ok : σ → ι → Prop} {allowed : ι → Prop}
    (Inv : σ → Prop) (hP : ∀ s, Inv s → P s)
    (hkeep : ∀ s i s' r, Inv s → allowed i → ok s i → step s i = some (s', r) → Inv s')
    (hneed : ∀ s i, Inv s → allowed i → (∀ s' r, step s i = some (s', r) → P s') → ok s i) :
    ∀ {is : List ι} {s : σ}, (∀ i ∈ is, allowed i) → Inv s → (Always step P s is ↔ Along step ok s is)
  | [], s, _, hs => ⟨fun _ => trivial, fun _ => hP s hs⟩
  | i :: is, s, hallowed, hs => by
    obtain ⟨hi, his⟩ := List.forall_mem_cons.mp hallowed
    constructor
    · intro h
      have hok : ok s i := hneed s i hs hi fun s' r hstep => (h.2 s' r hstep).head
      refine ⟨hok, fun s' r hstep => ?_⟩
      have hs' : Inv s' := hkeep s i s' r hs hi hok hstep
      exact (always_iff_along_of Inv hP hkeep hneed his hs').mp (h.2 s' r hstep)
    · intro h
      refine ⟨hP s hs, fun s' r hstep => ?_⟩
      have hs' : Inv s' := hkeep s i s' r hs hi h.1 hstep
      exact (always_iff_along_of Inv hP hkeep hneed his hs').mpr (h.2 s' r hstep)

/-- The same where every step is allowed. -/
theorem always_iff_along {step : σ → ι → Option (σ × ρ)} {P : σ → Prop} {ok : σ → ι → Prop} (Inv : σ → Prop)
    (hP : ∀ s, Inv s → P s)
    (hkeep : ∀ s i s' r, Inv s → ok s i → step s i = some (s', r) → Inv s')
    (hneed : ∀ s i, Inv s → (∀ s' r, step s i = some (s', r) → P s') → ok s i) (is : List ι) (s : σ) (hs : Inv s) :
    Always step P s is ↔ Along step ok s is :=
  always_iff_along_of Inv hP (fun s i s' r h (_ : True) => hkeep s i s' r h) (fun s i h _ => hneed s i h)
    (fun _ _ => trivial) hs

/-- **A property that is lost for good.**  If an allowed step keeps the property exactly when it meets the
condition, and none restores it, a run keeps it exactly when all its steps meet the condition. -/
theorem last_iff_along_of {step : σ → ι → Option (σ × ρ)} {P : σ → Prop} {ok : σ → ι → Prop} {allowed : ι → Prop}
    (Inv : σ → Prop) (hkeep : ∀ s i s' r, Inv s → allowed i → step s i = some (s', r) → Inv s')
    (hstep : ∀ s i s' r, Inv s → allowed i → step s i = some (s', r) → (P s' ↔ P s ∧ ok s i)) :
    ∀ {is : List ι} {s s' : σ} {rs : List ρ}, (∀ i ∈ is, allowed i) → Inv s → runOps step s is = some (s', rs) →
      (P s' ↔ P s ∧ Along step ok s is)
  | [], _, _, _, _, _, hrun => by
    cases hrun
    exact (and_iff_left trivial).symm
  | i :: is, s, s', _, hallowed, hs, hrun => by
    obtain ⟨hi, his⟩ := List.forall_mem_cons.mp hallowed
    obtain ⟨s₁, r₁, rs₂, h₁, h₂, rfl⟩ := runOps_cons.mp hrun
    have hrest : P s' ↔ P s₁ ∧ Along step ok s₁ is :=
      last_iff_along_of Inv hkeep hstep his (hkeep s i s₁ r₁ hs hi h₁) h₂
    have halong : Along step ok s (i :: is) ↔ ok s i ∧ Along step ok s₁ is :=
      ⟨fun h => ⟨h.1, h.2 s₁ r₁ h₁⟩, fun h => ⟨h.1, fun s' r h' => by
        cases h₁.symm.trans h'
        exact h.2⟩⟩
    rw [hrest, hstep s i s₁ r₁ hs hi h₁, halong, and_assoc]

/-- The same where every step is allowed. -/
theorem last_iff_along {step : σ → ι → Option (σ × ρ)} {P : σ → Prop} {ok : σ → ι → Prop} (Inv : σ → Prop)
    (hkeep : ∀ s i s' r, Inv s → step s i = some (s', r) → Inv s')
    (hstep : ∀ s i s' r, Inv s → step s i = some (s', r) → (P s' ↔ P s ∧ ok s i)) :
    ∀ {is : List ι} {s s' : σ} {rs : List ρ}, Inv s → runOps step s is = some (s', rs) →
      (P s' ↔ P s ∧ Along step ok s is) :=
  last_iff_along_of Inv (fun s i s' r h (_ : True) => hkeep s i s' r h) (fun s i s' r h _ => hstep s i s' r h)
    fun _ _ => trivial

/-- **A counter with a bound.**  Where the operations of one kind count, and nothing else does, each of them
finds room below the bound exactly if there are fewer of them than the bound leaves. -/
theorem along_room_iff {step : σ → ι → Option (σ × ρ)} (counter : σ → Nat) (kind : ι → Bool) (bound : Nat)
    (Inv : σ → Prop)
    (hstep : ∀ s i s' r, Inv s → (kind i = true → counter s + 1 < bound) → step s i = some (s', r) →
      Inv s' ∧ counter s' = counter s + if kind i then 1 else 0) :
    ∀ {is : List ι} {s s' : σ} {rs : List ρ}, Inv s → counter s < bound → runOps step s is = some (s', rs) →
      (Along step (fun s i => kind i = true → counter s + 1 < bound) s is ↔ counter s + is.countP kind < bound)
  | [], _, _, _, _, hlt, _ => ⟨fun _ => hlt, fun _ => trivial⟩
  | i :: is, s, _, _, hs, hlt, hrun => by
    obtain ⟨s₁, r₁, rs₂, h₁, h₂, rfl⟩ := runOps_cons.mp hrun
    have hnext : (kind i = true → counter s + 1 < bound) →
      (Along step (fun s i => kind i = true → counter s + 1 < bound) s₁ is ↔
        counter s + (i :: is).countP kind < bound) := by
      intro hroom
      obtain ⟨hs₁, hcounter⟩ := hstep s i s₁ r₁ hs hroom h₁
      have hlt₁ : counter s₁ < bound := by
        rw [hcounter]
        split
        · exact hroom ‹_›
        · exact hlt
      rw [along_room_iff counter kind bound Inv hstep hs₁ hlt₁ h₂, hcounter, List.countP_cons]
      omega
    constructor
    · intro h
      exact (hnext h.1).mp (h.2 s₁ r₁ h₁)
    · intro h
      have hroom : kind i = true → counter s + 1 < bound := by
        intro hkind
        rw [List.countP_cons, if_pos hkind] at h
        omega
      refine ⟨hroom, fun s' r hs' => ?_⟩
      obtain ⟨rfl, rfl⟩ := Prod.mk.inj (Option.some.inj (h₁.symm.trans hs'))
      exact (hnext hroom).mpr h

/-- **Invariants of runs**, which may speak of the operations done and the results returned so
far, under a condition on the operations. -/
theorem runOps_trace {step : σ → ι → Option (σ × ρ)} (Inv : σ → List ι → List ρ → Prop)
    {ok : σ → ι → Prop}
    (hstep : ∀ s is rs i s' r, Inv s is rs → ok s i → step s i = some (s', r) →
      Inv s' (is ++ [i]) (rs ++ [r])) :
    ∀ (is : List ι) (s s' : σ) (done : List ι) (out rs : List ρ), Inv s done out →
      Along step ok s is → runOps step s is = some (s', rs) → Inv s' (done ++ is) (out ++ rs)
  | [], s, s', done, out, rs, hI, _, h => by
    simp only [runOps, Option.some.injEq, Prod.mk.injEq] at h
    obtain ⟨rfl, rfl⟩ := h
    simpa using hI
  | i :: is, s, s', done, out, rs, hI, hok, h => by
    obtain ⟨s₁, r₁, rs₂, h₁, h₂, rfl⟩ := runOps_cons.mp h
    have hrest := runOps_trace Inv hstep is s₁ s' (done ++ [i]) (out ++ [r₁]) rs₂
      (hstep s done out i s₁ r₁ hI hok.1 h₁) (hok.2 s₁ r₁ h₁) h₂
    simpa only [List.append_assoc, List.singleton_append] using hrest

/-- The same for a run from the start, under no condition. -/
theorem runOps_inv {step : σ → ι → Option (σ × ρ)} (Inv : σ → List ι → List ρ → Prop)
    (hstep : ∀ s is rs i s' r, Inv s is rs → step s i = some (s', r) → Inv s' (is ++ [i]) (rs ++ [r]))
    {is : List ι} {s s' : σ} {rs : List ρ} (hI : Inv s [] []) (h : runOps step s is = some (s', rs)) :
    Inv s' is rs :=
  have halong : Along step (fun _ _ => True) s is := along_of_forall (fun _ _ _ => trivial) s
  runOps_trace Inv (fun s is rs i s' r hI _ => hstep s is rs i s' r hI) is s s' [] [] rs hI halong h

/-- **A machine that is never stuck.**  If as long as `P` does not hold some step that meets the condition is
defined, keeps the invariant and goes down, then a run of such steps leads to `P`. -/
theorem reaches_of_rank {step : σ → ι → Option (σ × ρ)} {ok : σ → ι → Prop} {P : σ → Prop} (Inv : σ → Prop)
    (rank : σ → Nat)
    (hnext : ∀ s, Inv s → P s ∨ ∃ i s' r, ok s i ∧ step s i = some (s', r) ∧ Inv s' ∧ rank s' < rank s) (s : σ)
    (hs : Inv s) : ∃ is s' rs, Along step ok s is ∧ runOps step s is = some (s', rs) ∧ Inv s' ∧ P s' := by
  induction hrank : rank s using Nat.strongRecOn generalizing s with
  | ind n ih =>
    subst hrank
    rcases hnext s hs with hP | ⟨i, s₁, r, hok, hstep, hs₁, hlt⟩
    · exact ⟨[], s, [], trivial, rfl, hs, hP⟩
    · obtain ⟨is, s', rs, halong, hrun, hs', hP⟩ := ih (rank s₁) hlt s₁ hs₁ rfl
      refine ⟨i :: is, s', r :: rs, ⟨hok, fun s₂ r₂ hstep₂ => ?_⟩, runOps_cons.mpr ⟨s₁, r, rs, hstep,
        hrun, rfl⟩, hs', hP⟩
      cases hstep.symm.trans hstep₂
      exact halong

end Libws.Machine
