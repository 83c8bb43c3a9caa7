import Mathlib.Data.List.Nodup

/-!
# Ordered sets that are searched as a tree

An ordered set is the list of its elements in the order of iteration.  A search goes down a tree
that the list does not show: at each node it compares, and goes on in front of it or behind it.
`shape lo hi` tells the root of the subtree that holds the places from `lo` to `hi`; nothing is said
about it, so what is proved holds of every way to keep the tree balanced.

* `descend` — the search, and `descend_append`: where it ends when the set is in order;
* `insert`, `erase` — by key, also in a set that is not in order;
* `insert_of_split`, `erase_of_split` — what they do where the key has its place in the order;
* `mem_erase_iff` — what `erase` leaves, in any order.
-/

set_option autoImplicit false

namespace Libws.OrderedSet

variable {α : Type}

abbrev Shape := (lo : Nat) → (hi : Nat) → Nat

/-- Search the places from `lo` to `hi`: behind each node that `right` holds of, in front of each
other. -/
def descend (shape : Shape) (right : α → Bool) (set : List α) : (fuel : Nat) → (lo hi : Nat) → Nat
  | 0, lo, _ => lo
  | fuel + 1, lo, hi =>
    if lo < hi then
      let node := lo + shape lo hi % (hi - lo)
      if set[node]?.any right then descend shape right set fuel (node + 1) hi
      else descend shape right set fuel lo node
    else lo

theorem node_lt (shape : Shape) {lo hi : Nat} (h : lo < hi) : lo + shape lo hi % (hi - lo) < hi := by
  have hmod : shape lo hi % (hi - lo) < hi - lo := Nat.mod_lt _ (by omega)
  omega

theorem descend_le (shape : Shape) (right : α → Bool) (set : List α) :
    ∀ (fuel : Nat) {lo hi : Nat}, lo ≤ hi → descend shape right set fuel lo hi ≤ hi
  | 0, _, _, h => h
  | fuel + 1, lo, hi, h => by
    rw [descend]
    split
    · rename_i hlt
      have hnode := node_lt shape hlt
      dsimp only
      split
      · exact descend_le shape right set fuel hnode
      · have hleft := descend_le shape right set fuel (Nat.le_add_right lo (shape lo hi % (hi - lo)))
        omega
    · exact h

theorem le_descend (shape : Shape) (right : α → Bool) (set : List α) :
    ∀ (fuel lo hi : Nat), lo ≤ descend shape right set fuel lo hi
  | 0, lo, _ => Nat.le_refl lo
  | fuel + 1, lo, hi => by
    rw [descend]
    split
    · dsimp only
      split
      · have hright := le_descend shape right set fuel (lo + shape lo hi % (hi - lo) + 1) hi
        omega
      · exact le_descend shape right set fuel lo _
    · exact Nat.le_refl lo

theorem any_imp {right right' : α → Bool} (h : ∀ x, right x = true → right' x = true) :
    ∀ {x : Option α}, x.any right = true → x.any right' = true
  | some x, hx => h x hx

/-- A search that goes behind more nodes does not end in front. -/
theorem descend_mono (shape : Shape) {right right' : α → Bool} (h : ∀ x, right x = true → right' x = true)
    (set : List α) :
    ∀ (fuel lo hi : Nat), descend shape right set fuel lo hi ≤ descend shape right' set fuel lo hi
  | 0, lo, _ => Nat.le_refl lo
  | fuel + 1, lo, hi => by
    rw [descend, descend]
    split
    · dsimp only
      by_cases hany : set[lo + shape lo hi % (hi - lo)]?.any right = true
      · rw [if_pos hany, if_pos (any_imp h hany)]
        exact descend_mono shape h set fuel _ hi
      · rw [if_neg hany]
        split
        · -- the searches part at this node
          have hleft := descend_le shape right set fuel (Nat.le_add_right lo (shape lo hi % (hi - lo)))
          have hright := le_descend shape right' set fuel (lo + shape lo hi % (hi - lo) + 1) hi
          omega
        · exact descend_mono shape h set fuel lo _
    · exact Nat.le_refl lo

/-- **The search ends where the set parts.** -/
theorem descend_append (shape : Shape) {right : α → Bool} {front back : List α}
    (hfront : ∀ x ∈ front, right x = true) (hback : ∀ x ∈ back, right x = false) :
    ∀ (fuel : Nat) {lo hi : Nat}, lo ≤ front.length → front.length ≤ hi → hi ≤ (front ++ back).length →
      hi - lo ≤ fuel → descend shape right (front ++ back) fuel lo hi = front.length
  | 0, lo, hi, hlo, hhi, _, hfuel => by
    show lo = front.length
    omega
  | fuel + 1, lo, hi, hlo, hhi, hlen, hfuel => by
    rw [descend]
    split
    · rename_i hlt
      have hnode := node_lt shape hlt
      have hle : lo ≤ lo + shape lo hi % (hi - lo) := Nat.le_add_right ..
      dsimp only
      generalize lo + shape lo hi % (hi - lo) = node at hnode hle ⊢
      by_cases hf : node < front.length
      · have hany : (front ++ back)[node]?.any right = true := by
          rw [List.getElem?_append_left hf, List.getElem?_eq_getElem hf]
          exact hfront _ (List.getElem_mem hf)
        rw [if_pos hany]
        exact descend_append shape hfront hback fuel hf hhi hlen (by omega)
      · have hany : ¬ (front ++ back)[node]?.any right = true := by
          have hlt' : node < (front ++ back).length := by omega
          rw [List.getElem?_append_right (by omega), List.getElem?_eq_getElem (by
            rw [List.length_append] at hlt'
            omega)]
          exact Bool.eq_false_iff.mp (hback _ (List.getElem_mem _))
        rw [if_neg hany]
        exact descend_append shape hfront hback fuel hlo (by omega) (by omega) (by omega)
    · omega

/-! ## By key -/

variable (lt : α → α → Prop) [DecidableRel lt]

/-- The place behind the last element that `key` is not less than. -/
def upperBound (shape : Shape) (key : α) (set : List α) : Nat :=
  descend shape (fun x => !decide (lt key x)) set set.length 0 set.length

/-- The place in front of the first element that is not less than `key`. -/
def lowerBound (shape : Shape) (key : α) (set : List α) : Nat :=
  descend shape (fun x => decide (lt x key)) set set.length 0 set.length

/-- Insert `key`, unless the element in front of its place is its equal. -/
def insert (shape : Shape) (key : α) (set : List α) : List α :=
  let pos := upperBound lt shape key set
  if pos = 0 ∨ set[pos - 1]?.any (fun x => decide (lt x key)) then set.take pos ++ key :: set.drop pos else set

/-- Erase the elements that are equal to `key`. -/
def erase (shape : Shape) (key : α) (set : List α) : List α :=
  set.take (lowerBound lt shape key set) ++ set.drop (upperBound lt shape key set)

/-- Nothing but the key is inserted, and nothing is lost. -/
theorem insert_perm (shape : Shape) (key : α) (set : List α) :
    insert lt shape key set = set ∨ (insert lt shape key set).Perm (key :: set) := by
  unfold insert
  dsimp only
  split
  · right
    have hperm : (set.take (upperBound lt shape key set) ++ key :: set.drop (upperBound lt shape key set)).Perm
        (key :: (set.take (upperBound lt shape key set) ++ set.drop (upperBound lt shape key set))) :=
          List.perm_middle
    rw [List.take_append_drop] at hperm
    exact hperm
  · exact Or.inl rfl

variable {lt}

/-- Erasing takes elements out. -/
theorem erase_sublist (hasymm : ∀ x y, lt x y → ¬ lt y x) (shape : Shape) (key : α) (set : List α) :
    (erase lt shape key set).Sublist set := by
  have hle : lowerBound lt shape key set ≤ upperBound lt shape key set := by
    apply descend_mono
    intro x hx
    rw [decide_eq_true_iff] at hx
    rw [Bool.not_eq_true', decide_eq_false_iff_not]
    exact hasymm x key hx
  have hdrop : (set.drop (upperBound lt shape key set)).Sublist (set.drop (lowerBound lt shape key set)) :=
    (List.drop_suffix_drop_left set hle).sublist
  have happend := (List.Sublist.refl (set.take (lowerBound lt shape key set))).append hdrop
  rw [List.take_append_drop] at happend
  exact happend

/-- The lower bound, where the set parts in front of what the key is not greater than. -/
theorem lowerBound_of_split (shape : Shape) {key : α} {front back : List α} (hfront : ∀ x ∈ front, lt x key)
    (hback : ∀ x ∈ back, ¬ lt x key) : lowerBound lt shape key (front ++ back) = front.length := by
  apply descend_append shape
  · intro x hx
    exact decide_eq_true (hfront x hx)
  · intro x hx
    exact decide_eq_false (hback x hx)
  · exact Nat.zero_le _
  · rw [List.length_append]
    exact Nat.le_add_right ..
  · exact Nat.le_refl _
  · exact Nat.le_refl _

/-- The upper bound, where the set parts behind what the key is not less than. -/
theorem upperBound_of_split (shape : Shape) {key : α} {front back : List α} (hfront : ∀ x ∈ front, ¬ lt key x)
    (hback : ∀ x ∈ back, lt key x) : upperBound lt shape key (front ++ back) = front.length := by
  apply descend_append shape
  · intro x hx
    rw [Bool.not_eq_true', decide_eq_false_iff_not]
    exact hfront x hx
  · intro x hx
    rw [Bool.not_eq_false', decide_eq_true_iff]
    exact hback x hx
  · exact Nat.zero_le _
  · rw [List.length_append]
    exact Nat.le_add_right ..
  · exact Nat.le_refl _
  · exact Nat.le_refl _

/-- The key goes where the set parts. -/
theorem insert_of_split (hasymm : ∀ x y, lt x y → ¬ lt y x) (shape : Shape) {key : α} {front back : List α}
    (hfront : ∀ x ∈ front, lt x key) (hback : ∀ x ∈ back, lt key x) :
    insert lt shape key (front ++ back) = front ++ key :: back := by
  have hpos : upperBound lt shape key (front ++ back) = front.length :=
    upperBound_of_split shape (fun x hx => hasymm x key (hfront x hx)) hback
  have hplace : front.length = 0 ∨ (front ++ back)[front.length - 1]?.any (fun x => decide (lt x key)) = true := by
    rcases Nat.eq_zero_or_pos front.length with hzero | hlen
    · exact Or.inl hzero
    · right
      have hlast : front.length - 1 < front.length := by omega
      rw [List.getElem?_append_left hlast, List.getElem?_eq_getElem hlast]
      exact decide_eq_true (hfront _ (List.getElem_mem hlast))
  unfold insert
  dsimp only
  rw [hpos, if_pos hplace, List.take_left, List.drop_left]

/-- The places that `erase` takes, around an element that is equal to the key. -/
theorem bounds_of_equal (hasymm : ∀ x y, lt x y → ¬ lt y x) (shape : Shape) {key old : α} {front back : List α}
    (hfront : ∀ x ∈ front, lt x key) (hold : ¬ lt old key ∧ ¬ lt key old) (hback : ∀ x ∈ back, lt key x) :
    lowerBound lt shape key (front ++ old :: back) = front.length ∧
      upperBound lt shape key (front ++ old :: back) = front.length + 1 := by
  constructor
  · refine lowerBound_of_split shape hfront fun x hx => ?_
    rcases List.mem_cons.mp hx with rfl | hx
    · exact hold.1
    · exact hasymm key x (hback x hx)
  · have hupper : upperBound lt shape key ((front ++ [old]) ++ back) = (front ++ [old]).length :=
      upperBound_of_split shape (fun x hx => by
        rcases List.mem_append.mp hx with hx | hx
        · exact hasymm x key (hfront x hx)
        · rw [List.mem_singleton.mp hx]
          exact hold.2) hback
    rw [List.append_assoc, List.singleton_append, List.length_append, List.length_singleton] at hupper
    exact hupper

/-- The key is erased where the set parts around it. -/
theorem erase_of_split (hasymm : ∀ x y, lt x y → ¬ lt y x) (shape : Shape) {key : α} {front back : List α}
    (hfront : ∀ x ∈ front, lt x key) (hback : ∀ x ∈ back, lt key x) :
    erase lt shape key (front ++ key :: back) = front ++ back := by
  have hirrefl : ¬ lt key key := fun h => hasymm key key h h
  obtain ⟨hlower, hupper⟩ := bounds_of_equal hasymm shape hfront ⟨hirrefl, hirrefl⟩ hback
  unfold erase
  rw [hlower, hupper, List.take_left, List.drop_append]
  simp

/-- What `erase` leaves is outside of the places that it takes. -/
theorem mem_erase_iff {shape : Shape} {key x : α} {set : List α} (hnodup : set.Nodup) {i : Nat}
    (hx : set[i]? = some x) :
    x ∈ erase lt shape key set ↔ i < lowerBound lt shape key set ∨ upperBound lt shape key set ≤ i := by
  have hplace : ∀ j : Nat, set[j]? = some x → j = i := fun j hj => by
    obtain ⟨hjlt, hjx⟩ := List.getElem?_eq_some_iff.mp hj
    obtain ⟨hilt, hix⟩ := List.getElem?_eq_some_iff.mp hx
    exact (List.Nodup.getElem_inj_iff hnodup).mp (hjx.trans hix.symm)
  unfold erase
  rw [List.mem_append]
  refine or_congr ⟨fun h => ?_, fun h => ?_⟩ ⟨fun h => ?_, fun h => ?_⟩
  · obtain ⟨j, hj⟩ := List.getElem?_of_mem h
    rw [List.getElem?_take] at hj
    split at hj
    · rename_i hlt
      exact hplace j hj ▸ hlt
    · cases hj
  · exact List.mem_of_getElem? (i := i) (by rw [List.getElem?_take, if_pos h]; exact hx)
  · obtain ⟨j, hj⟩ := List.getElem?_of_mem h
    rw [List.getElem?_drop] at hj
    have heq := hplace _ hj
    omega
  · refine List.mem_of_getElem? (i := i - upperBound lt shape key set) ?_
    rw [List.getElem?_drop, Nat.add_sub_cancel' h]
    exact hx

omit [DecidableRel lt] in
/-- A set that is in order parts at a key that no element is equal to. -/
theorem split_of_sorted (htrans : ∀ x y z, lt x y → lt y z → lt x z) {key : α} :
    ∀ {set : List α}, set.Pairwise lt → (∀ x ∈ set, lt x key ∨ lt key x) →
      ∃ front back, set = front ++ back ∧ (∀ x ∈ front, lt x key) ∧ ∀ x ∈ back, lt key x
  | [], _, _ => ⟨[], [], rfl, List.forall_mem_nil _, List.forall_mem_nil _⟩
  | x :: set, hsorted, hkey => by
    obtain ⟨hx, hset⟩ := List.pairwise_cons.mp hsorted
    rcases hkey x (List.mem_cons_self ..) with hlt | hgt
    · obtain ⟨front, back, rfl, hfront, hback⟩ :=
        split_of_sorted htrans hset fun y hy => hkey y (List.mem_cons_of_mem x hy)
      refine ⟨x :: front, back, rfl, ?_, hback⟩
      intro y hy
      rcases List.mem_cons.mp hy with rfl | hy
      · exact hlt
      · exact hfront y hy
    · refine ⟨[], x :: set, rfl, List.forall_mem_nil _, ?_⟩
      intro y hy
      rcases List.mem_cons.mp hy with rfl | hy
      · exact hgt
      · exact htrans key x y hgt (hx y hy)

/-- **Inserting keeps the order.** -/
theorem insert_sorted (hasymm : ∀ x y, lt x y → ¬ lt y x) (htrans : ∀ x y z, lt x y → lt y z →
    lt x z) (shape : Shape)
    {key : α} {set : List α} (hsorted : set.Pairwise lt) (hkey : ∀ x ∈ set, lt x key ∨ lt key x) :
    (insert lt shape key set).Pairwise lt ∧ (insert lt shape key set).Perm (key :: set) := by
  obtain ⟨front, back, rfl, hfront, hback⟩ := split_of_sorted htrans hsorted hkey
  rw [insert_of_split hasymm shape hfront hback]
  refine ⟨?_, List.perm_middle⟩
  obtain ⟨hf, hb, hcross⟩ := List.pairwise_append.mp hsorted
  refine List.pairwise_append.mpr ⟨hf, List.pairwise_cons.mpr ⟨hback, hb⟩, ?_⟩
  intro x hx y hy
  rcases List.mem_cons.mp hy with rfl | hy
  · exact hfront x hx
  · exact hcross x hx y hy

end Libws.OrderedSet
