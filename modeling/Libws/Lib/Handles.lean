import Mathlib.Data.List.Perm.Basic
import Mathlib.Data.List.Induction

/-!
# Handles of a library

A library gives out handles: each is made, used and freed, and some of them have to be freed before others.  A
program keeps to the rules when its trace goes through a ledger.

* `Alive`, `Orderly` — the rules;
* `Ledger`, `after` — the handles that are held after a trace; none if a rule was broken;
* `orderly_of_after` — a trace that goes through the ledger is orderly;
* `Accounts` — what a program has to know about a trace to go on with it: `made`, `used`, `freed`, `usedAll`,
  `freedAll`.
-/

set_option autoImplicit false

namespace Libws.Handles

inductive Event (η : Type) where
  | made (handle : η)
  | used (handle : η)
  | freed (handle : η)
  deriving DecidableEq, Repr

structure Ledger (η : Type) where
  held : List η
  gone : List η

variable {η : Type}

/-- A handle was made and not freed so far. -/
def Alive (trace : List (Event η)) (h : η) : Prop := .made h ∈ trace ∧ .freed h ∉ trace

/-- What may come after a trace; `needs g h` means that `g` cannot outlive `h`. -/
def Allowed (needs : η → η → Bool) (trace : List (Event η)) : Event η → Prop
  | .made h => .made h ∉ trace
  | .used h => Alive trace h
  | .freed h => Alive trace h ∧ ∀ g, needs g h = true → ¬ Alive trace g

/-- No handle is made twice, or used or freed when it is not alive, and none is freed before one that needs it. -/
def Orderly (needs : η → η → Bool) (trace : List (Event η)) : Prop :=
  ∀ before later e, trace = before ++ e :: later → Allowed needs before e

variable {needs : η → η → Bool} {trace : List (Event η)}

theorem orderly_nil : Orderly needs ([] : List (Event η)) := by
  intro before later e heq
  simp at heq

theorem Orderly.concat (h : Orderly needs trace) {e : Event η} (hallowed : Allowed needs trace e) :
    Orderly needs (trace ++ [e]) := by
  intro before later other heq
  rcases List.eq_nil_or_concat later with rfl | ⟨front, last, rfl⟩
  · obtain ⟨rfl, hlast⟩ := List.append_inj' heq rfl
    cases hlast
    exact hallowed
  · rw [List.concat_eq_append, ← List.cons_append, ← List.append_assoc] at heq
    exact h before front other (List.append_inj' heq rfl).1

/-- What a ledger says about its trace. -/
structure Ledger.Tells (ledger : Ledger η) (trace : List (Event η)) : Prop where
  made : ∀ h, .made h ∈ trace ↔ h ∈ ledger.held ∨ h ∈ ledger.gone
  freed : ∀ h, .freed h ∈ trace ↔ h ∈ ledger.gone
  apart : ∀ h ∈ ledger.held, h ∉ ledger.gone
  nodup : ledger.held.Nodup

theorem Ledger.Tells.alive_iff {ledger : Ledger η} (h : ledger.Tells trace) (handle : η) :
    Alive trace handle ↔ handle ∈ ledger.held := by
  rw [Alive, h.made, h.freed]
  constructor
  · rintro ⟨hheld | hgone, hnot⟩
    · exact hheld
    · exact absurd hgone hnot
  · intro hheld
    exact ⟨.inl hheld, h.apart handle hheld⟩

variable [DecidableEq η]

/-- One event. -/
def Ledger.take (needs : η → η → Bool) (ledger : Ledger η) : Event η → Option (Ledger η)
  | .made h => if h ∈ ledger.held ∨ h ∈ ledger.gone then none else some { ledger with held := h :: ledger.held }
  | .used h => if h ∈ ledger.held then some ledger else none
  | .freed h =>
    if h ∈ ledger.held ∧ ∀ g ∈ ledger.held, needs g h = false then
      some ⟨ledger.held.erase h, h :: ledger.gone⟩
    else none

def after (needs : η → η → Bool) (trace : List (Event η)) : Option (Ledger η) :=
  trace.foldlM (Ledger.take needs) ⟨[], []⟩

theorem after_concat (trace : List (Event η)) (e : Event η) :
    after needs (trace ++ [e]) = (after needs trace).bind (Ledger.take needs · e) := by
  rw [after, List.foldlM_append]
  simp [after, List.foldlM_cons]

theorem Ledger.Tells.take {ledger ledger' : Ledger η} {e : Event η} (h : ledger.Tells trace)
    (htake : ledger.take needs e = some ledger') : ledger'.Tells (trace ++ [e]) := by
  cases e with
  | made new =>
    obtain ⟨hnew, hledger⟩ := Option.ite_none_left_eq_some.mp htake
    cases hledger
    rw [not_or] at hnew
    refine ⟨?_, ?_, ?_, List.nodup_cons.mpr ⟨hnew.1, h.nodup⟩⟩
    · intro handle
      simp [h.made, or_comm, or_assoc]
    · intro handle
      simp [h.freed]
    · intro handle hheld
      rcases List.mem_cons.mp hheld with rfl | hold
      · exact hnew.2
      · exact h.apart handle hold
  | used old =>
    obtain ⟨-, hledger⟩ := Option.ite_none_right_eq_some.mp htake
    cases hledger
    refine ⟨?_, ?_, h.apart, h.nodup⟩
    · intro handle
      simp [h.made]
    · intro handle
      simp [h.freed]
  | freed old =>
    obtain ⟨⟨hheld, -⟩, hledger⟩ := Option.ite_none_right_eq_some.mp htake
    cases hledger
    refine ⟨?_, ?_, ?_, h.nodup.erase old⟩
    · intro handle
      by_cases heq : handle = old
      · simp [h.made, heq, hheld]
      · simp [h.made, heq, List.mem_erase_of_ne]
    · intro handle
      simp [h.freed, or_comm]
    · intro handle hmem
      rw [h.nodup.mem_erase_iff] at hmem
      intro hgone
      rcases List.mem_cons.mp hgone with heq | hold
      · exact hmem.1 heq
      · exact h.apart handle hmem.2 hold

/-- What a ledger takes is allowed. -/
theorem Ledger.Tells.allowed {ledger ledger' : Ledger η} {e : Event η} (h : ledger.Tells trace)
    (htake : ledger.take needs e = some ledger') : Allowed needs trace e := by
  cases e with
  | made new =>
    obtain ⟨hnew, -⟩ := Option.ite_none_left_eq_some.mp htake
    rw [← h.made] at hnew
    exact hnew
  | used old =>
    obtain ⟨hheld, -⟩ := Option.ite_none_right_eq_some.mp htake
    exact (h.alive_iff old).mpr hheld
  | freed old =>
    obtain ⟨⟨hheld, hneeds⟩, -⟩ := Option.ite_none_right_eq_some.mp htake
    refine ⟨(h.alive_iff old).mpr hheld, ?_⟩
    intro other hother halive
    have hnot := hneeds other ((h.alive_iff other).mp halive)
    rw [hnot] at hother
    cases hother

/-- **A trace that goes through the ledger is orderly**, and the ledger has what is alive. -/
theorem orderly_of_after : ∀ {trace : List (Event η)} {ledger : Ledger η}, after needs trace = some ledger →
    Orderly needs trace ∧ ledger.Tells trace := by
  intro trace
  induction trace using List.reverseRecOn with
  | nil =>
    intro ledger h
    cases h
    refine ⟨orderly_nil, ⟨?_, ?_, ?_, List.nodup_nil⟩⟩ <;> simp
  | append_singleton trace e ih =>
    intro ledger' h
    rw [after_concat] at h
    obtain ⟨ledger, hledger, htake⟩ := Option.bind_eq_some_iff.mp h
    obtain ⟨horderly, htells⟩ := ih hledger
    exact ⟨horderly.concat (htells.allowed htake), htells.take htake⟩

/-! ## Accounts -/

/-- A program has made handles that are `old`, and has those in `held`. -/
structure Accounts (needs : η → η → Bool) (old : η → Prop) (held : List η) (trace : List (Event η)) : Prop where
  ledger : ∃ ledger, after needs trace = some ledger ∧ ledger.held.Perm held ∧ ∀ h ∈ ledger.gone, old h
  old : ∀ h ∈ held, old h

namespace Accounts

variable {old old' : η → Prop} {held held' : List η}

theorem nil (old : η → Prop) : Accounts needs old [] [] := by
  refine ⟨⟨⟨[], []⟩, rfl, .refl _, ?_⟩, ?_⟩ <;> simp

theorem perm (h : Accounts needs old held trace) (hperm : held.Perm held') (hold : ∀ h, old h → old' h) :
    Accounts needs old' held' trace := by
  obtain ⟨⟨ledger, hafter, hheld, hgone⟩, hall⟩ := h
  refine ⟨⟨ledger, hafter, hheld.trans hperm, fun g hg => hold g (hgone g hg)⟩, ?_⟩
  intro g hg
  exact hold g (hall g (hperm.mem_iff.mpr hg))

theorem made (h : Accounts needs old held trace) {new : η} (hnew : ¬ old new) (hold : ∀ h, old h → old' h)
    (hnew' : old' new) : Accounts needs old' (new :: held) (trace ++ [.made new]) := by
  obtain ⟨⟨ledger, hafter, hheld, hgone⟩, hall⟩ := h
  have hfresh : ¬ (new ∈ ledger.held ∨ new ∈ ledger.gone) := by
    rintro (hmem | hmem)
    · exact hnew (hall new (hheld.mem_iff.mp hmem))
    · exact hnew (hgone new hmem)
  refine ⟨⟨{ ledger with held := new :: ledger.held }, ?_, hheld.cons new, fun g hg => hold g (hgone g hg)⟩, ?_⟩
  · rw [after_concat, hafter]
    exact if_neg hfresh
  · intro g hg
    rcases List.mem_cons.mp hg with rfl | hmem
    · exact hnew'
    · exact hold g (hall g hmem)

theorem used (h : Accounts needs old held trace) {handle : η} (hmem : handle ∈ held) :
    Accounts needs old held (trace ++ [.used handle]) := by
  obtain ⟨⟨ledger, hafter, hheld, hgone⟩, hall⟩ := h
  refine ⟨⟨ledger, ?_, hheld, hgone⟩, hall⟩
  rw [after_concat, hafter]
  exact if_pos (hheld.mem_iff.mpr hmem)

theorem freed {handle : η} (h : Accounts needs old (handle :: held) trace)
    (hneeds : ∀ g ∈ handle :: held, needs g handle = false) :
    Accounts needs old held (trace ++ [.freed handle]) := by
  obtain ⟨⟨ledger, hafter, hheld, hgone⟩, hall⟩ := h
  refine ⟨⟨⟨ledger.held.erase handle, handle :: ledger.gone⟩, ?_, ?_, ?_⟩, ?_⟩
  · rw [after_concat, hafter]
    refine if_pos ⟨hheld.mem_iff.mpr (List.mem_cons_self ..), ?_⟩
    intro g hg
    exact hneeds g (hheld.mem_iff.mp hg)
  · have herase := hheld.erase handle
    rwa [List.erase_cons_head] at herase
  · intro g hg
    rcases List.mem_cons.mp hg with rfl | hmem
    · exact hall g (List.mem_cons_self ..)
    · exact hgone g hmem
  · intro g hg
    exact hall g (List.mem_cons_of_mem _ hg)

theorem usedAll (handles : List η) : ∀ {trace : List (Event η)}, Accounts needs old held trace →
    (∀ handle ∈ handles, handle ∈ held) → Accounts needs old held (trace ++ handles.map .used) := by
  induction handles with
  | nil =>
    intro trace h _
    simpa using h
  | cons handle handles ih =>
    intro trace h hheld
    have hfirst := h.used (hheld handle (List.mem_cons_self ..))
    have hrest := ih hfirst fun other hother => hheld other (List.mem_cons_of_mem _ hother)
    rwa [List.append_assoc, List.singleton_append] at hrest

/-- Handles that nobody needs are freed one after another. -/
theorem freedAll (handles : List η) : ∀ {trace : List (Event η)}, Accounts needs old (handles ++ held) trace →
    (∀ handle ∈ handles, ∀ g, needs g handle = false) → Accounts needs old held (trace ++ handles.map .freed) := by
  induction handles with
  | nil =>
    intro trace h _
    simpa using h
  | cons handle handles ih =>
    intro trace h hneeds
    have hfirst := freed h fun g _ => hneeds handle (List.mem_cons_self ..) g
    have hrest := ih hfirst fun other hother => hneeds other (List.mem_cons_of_mem _ hother)
    rwa [List.append_assoc, List.singleton_append] at hrest

/-- **The trace of a program that keeps accounts is orderly**, and it has what is alive. -/
theorem orderly (h : Accounts needs old held trace) :
    Orderly needs trace ∧ held.Nodup ∧ ∀ handle, Alive trace handle ↔ handle ∈ held := by
  obtain ⟨⟨ledger, hafter, hheld, -⟩, -⟩ := h
  obtain ⟨horderly, htells⟩ := orderly_of_after hafter
  refine ⟨horderly, hheld.nodup_iff.mp htells.nodup, ?_⟩
  intro handle
  rw [htells.alive_iff, hheld.mem_iff]

end Accounts

end Libws.Handles
