import Mathlib.Data.List.Perm.Basic

/-!
# Things that are lent

Each thing is at home or out; whatever is out is in the hands of one holder, and nobody else has it.

* `Owned` — the account; the things are named by the number in which they were made;
* `lend`, `make`, `giveBack`, `discard` — what may happen to a thing;
* `handOver` — things change hands;
* `hands_set` — the hands of many parties when one of them moves on.
-/

set_option autoImplicit false

namespace Libws.Custody

/-- The things `home`, those that are `out`, and whose hands they are in. -/
structure Owned (made : Nat) (home out holders : List Nat) : Prop where
  nodup : (home ++ out).Nodup
  bound : ∀ thing ∈ home ++ out, thing < made
  held : out.Perm holders

variable {made thing : Nat} {home out holders holders' : List Nat}

theorem owned_start (made : Nat) : Owned made (List.range made) [] [] :=
  ⟨by simpa using List.nodup_range, fun thing h => by simpa using h, .refl _⟩

theorem Owned.handOver (h : Owned made home out holders) (hperm : holders'.Perm holders) :
    Owned made home out holders' :=
  ⟨h.nodup, h.bound, h.held.trans hperm.symm⟩

theorem Owned.lend (h : Owned made (home ++ [thing]) out holders) :
    Owned made home (out ++ [thing]) (thing :: holders) := by
  have hperm : (home ++ (out ++ [thing])).Perm (home ++ [thing] ++ out) := by
    rw [List.append_assoc]
    exact List.perm_append_comm.append_left home
  refine ⟨hperm.nodup_iff.mpr h.nodup, fun other hother => h.bound other (hperm.mem_iff.mp hother), ?_⟩
  exact (List.perm_append_singleton thing out).trans (h.held.cons thing)

theorem Owned.make (h : Owned made home out holders) : Owned (made + 1) home (out ++ [made]) (made :: holders) := by
  have hnew : made ∉ home ++ out := fun hmem => Nat.lt_irrefl _ (h.bound made hmem)
  have hperm : (home ++ (out ++ [made])).Perm (made :: (home ++ out)) := by
    rw [← List.append_assoc]
    exact List.perm_append_singleton made (home ++ out)
  refine ⟨hperm.nodup_iff.mpr (List.nodup_cons.mpr ⟨hnew, h.nodup⟩), fun other hother => ?_, ?_⟩
  · rcases List.mem_cons.mp (hperm.mem_iff.mp hother) with rfl | hold
    · exact Nat.lt_succ_self other
    · exact Nat.lt_succ_of_lt (h.bound other hold)
  · exact (List.perm_append_singleton made out).trans (h.held.cons made)

/-- What is held is out. -/
theorem Owned.mem_out (h : Owned made home out (thing :: holders)) : thing ∈ out :=
  h.held.mem_iff.mpr (List.mem_cons_self ..)

theorem Owned.discard (h : Owned made home out (thing :: holders)) : Owned made home (out.erase thing) holders := by
  have hsub : (home ++ out.erase thing).Sublist (home ++ out) := (List.erase_sublist).append_left home
  refine ⟨h.nodup.sublist hsub, fun other hother => h.bound other (hsub.subset hother), ?_⟩
  have herase := h.held.erase thing
  rwa [List.erase_cons_head] at herase

theorem Owned.giveBack (h : Owned made home out (thing :: holders)) :
    Owned made (home ++ [thing]) (out.erase thing) holders := by
  have hperm : (home ++ [thing] ++ out.erase thing).Perm (home ++ out) := by
    rw [List.append_assoc]
    exact (List.perm_cons_erase h.mem_out).symm.append_left home
  exact ⟨hperm.nodup_iff.mpr h.nodup, fun other hother => h.bound other (hperm.mem_iff.mp hother), h.discard.held⟩

/-- Nobody holds what is at home. -/
theorem Owned.apart (h : Owned made home out holders) : thing ∈ home → thing ∉ holders := fun hhome hheld =>
  (List.nodup_append.mp h.nodup).2.2 thing hhome thing (h.held.mem_iff.mpr hheld) rfl

/-- No two holders have the same thing. -/
theorem Owned.holders_nodup (h : Owned made home out holders) : holders.Nodup :=
  h.held.nodup_iff.mp (List.nodup_append.mp h.nodup).2.1

variable {π : Type}

/-- A party that moves on, and the hands of all. -/
theorem hands_set (hand : π → Option Nat) {parties : List π} {i : Nat} {p : π} (h : parties[i]? = some p) (p' : π) :
    ((hand p).toList ++ (parties.set i p').filterMap hand).Perm ((hand p').toList ++ parties.filterMap hand) := by
  have hcons : ∀ (party : π) (rest : List π),
    (party :: rest).filterMap hand = (hand party).toList ++ rest.filterMap hand := by
    intro party rest
    rw [List.filterMap_cons]
    cases hand party <;> rfl
  obtain ⟨hlt, rfl⟩ := List.getElem?_eq_some_iff.mp h
  have hnew := (List.set_perm_cons_eraseIdx hlt p').filterMap hand
  have hold := (List.getElem_cons_eraseIdx_perm hlt).filterMap hand
  rw [hcons] at hnew hold
  exact (hnew.append_left _).trans ((List.perm_append_comm_assoc ..).trans (hold.append_left _))

end Libws.Custody
