import Mathlib.Data.List.Sort
import Mathlib.Order.Defs.Unbundled

/-!
# Heaps in a list, as `<algorithm>` promises them

A heap is a list in level order in which no element compares less than its child.

* `IsHeap.front_greatest` — nothing in a heap compares greater than its front.
* `HeapAlgorithms` — what `push_heap` and `pop_heap` promise; which of the heaps with the same
  elements they leave is up to the implementation.
* `HeapAlgorithms.popUntil`, `popUntil_spec` — pop until an element is to be kept: what is taken comes before
  all that is left, and what is dropped on the way was not to be kept.
* `HeapAlgorithms.sorted` — one implementation, which keeps the list sorted.
-/

set_option autoImplicit false

namespace Libws.Heap

/-- No element of the list compares less than the element at one of its two child positions. -/
def IsHeap {α : Type} (comp : α → α → Bool) (l : List α) : Prop :=
  ∀ i a b, 0 < i → l[(i - 1) / 2]? = some a → l[i]? = some b → comp a b = false

/-- In a strict weak order, "not less" is transitive. -/
theorem not_less_trans {α : Type} {comp : α → α → Bool} [hc : IsStrictWeakOrder α (comp · ·)] {a b c : α}
    (hab : comp a b = false) (hbc : comp b c = false) : comp a c = false := by
  rw [← Bool.not_eq_true] at hab hbc ⊢
  intro hac
  have hba : ¬ comp b a = true := fun h => hbc (hc.trans b a c h hac)
  have hcb : ¬ comp c b = true := fun h => hab (hc.trans a c b hac h)
  exact (hc.incomp_trans a b c ⟨hab, hba⟩ ⟨hbc, hcb⟩).1 hac

/-- Nothing in a heap compares greater than its front. -/
theorem IsHeap.front_greatest {α : Type} {comp : α → α → Bool} [hc : IsStrictWeakOrder α (comp · ·)]
    {l : List α} (h : IsHeap comp l) {a b : α} (ha : l.head? = some a) (hb : b ∈ l) : comp a b = false := by
  obtain ⟨i, hi⟩ := List.mem_iff_getElem?.mp hb
  induction i using Nat.strongRecOn generalizing b with
  | ind i ih =>
    rcases Nat.eq_zero_or_pos i with rfl | hpos
    · obtain rfl : a = b := by
        rw [List.head?_eq_getElem?, hi] at ha
        exact (Option.some.inj ha).symm
      exact (Bool.not_eq_true _).mp (hc.irrefl a)
    · have hlt : (i - 1) / 2 < l.length :=
        Nat.lt_of_le_of_lt (by omega) (List.getElem?_eq_some_iff.mp hi).1
      have hparent : l[(i - 1) / 2]? = some l[(i - 1) / 2] := List.getElem?_eq_getElem hlt
      exact not_less_trans (ih _ (by omega) (List.getElem_mem hlt) hparent) (h i _ b hpos hparent hi)

/-- A list in which nothing compares less than what stands behind it is a heap. -/
theorem isHeap_of_pairwise {α : Type} {comp : α → α → Bool} {l : List α}
    (h : l.Pairwise fun a b => comp a b = false) : IsHeap comp l := by
  intro i a b hi ha hb
  obtain ⟨hp, rfl⟩ := List.getElem?_eq_some_iff.mp ha
  obtain ⟨hl, rfl⟩ := List.getElem?_eq_some_iff.mp hb
  exact List.pairwise_iff_getElem.mp h _ _ hp hl (by omega)

/-- The heap algorithms.  They move elements and do nothing else; for a strict weak order they
keep a heap, and `popHeap` moves its front to the back. -/
structure HeapAlgorithms where
  pushHeap {α : Type} (comp : α → α → Bool) (l : List α) : List α
  popHeap {α : Type} (comp : α → α → Bool) (l : List α) : List α
  pushHeap_perm {α : Type} (comp : α → α → Bool) (l : List α) : (pushHeap comp l).Perm l
  popHeap_perm {α : Type} (comp : α → α → Bool) (l : List α) : (popHeap comp l).Perm l
  pushHeap_isHeap {α : Type} (comp : α → α → Bool) [IsStrictWeakOrder α (comp · ·)] (l : List α) :
    IsHeap comp l.dropLast → IsHeap comp (pushHeap comp l)
  popHeap_isHeap {α : Type} (comp : α → α → Bool) [IsStrictWeakOrder α (comp · ·)] (l : List α) :
    IsHeap comp l → IsHeap comp (popHeap comp l).dropLast
  popHeap_back {α : Type} (comp : α → α → Bool) [IsStrictWeakOrder α (comp · ·)] (l : List α) :
    IsHeap comp l → (popHeap comp l).getLast? = l.head?

/-- `pop_heap` brings an element of the heap to the back. -/
theorem HeapAlgorithms.popHeap_concat (std : HeapAlgorithms) {α : Type} (comp : α → α → Bool)
    {l : List α} (hne : l ≠ []) : ∃ x ∈ l, std.popHeap comp l = (std.popHeap comp l).dropLast ++ [x] := by
  have hperm := std.popHeap_perm comp l
  have hne' : std.popHeap comp l ≠ [] := by
    intro hnil
    rw [hnil] at hperm
    exact hne hperm.symm.eq_nil
  exact ⟨_, hperm.mem_iff.mp (List.getLast_mem hne'), (List.dropLast_append_getLast hne').symm⟩

/-! ## Lazy deletion -/

/-- Pop up to `left` elements, until one is to be kept. -/
def HeapAlgorithms.popUntil (std : HeapAlgorithms) {α : Type} (comp : α → α → Bool) (keep : α → Bool) :
    (left : Nat) → List α → List α × Option α
  | 0, l => (l, none)
  | left + 1, l =>
    match (std.popHeap comp l).getLast? with
    | none => (l, none)
    | some x =>
      if keep x then ((std.popHeap comp l).dropLast, some x) else std.popUntil comp keep left (std.popHeap comp l).dropLast

/-- `x` is taken from the heap, which leaves `rest`. -/
structure Takes {α : Type} (comp : α → α → Bool) (keep : α → Bool) (heap : List α) (x : α)
    (rest : List α) : Prop where
  kept : keep x = true
  skips : ∃ skipped, (∀ y ∈ skipped, keep y = false) ∧ heap.Perm (skipped ++ x :: rest)
  least : ∀ [IsStrictWeakOrder α (comp · ·)], IsHeap comp heap → IsHeap comp rest ∧ ∀ y ∈ rest, comp x y = false

section Takes

variable {α : Type} {comp : α → α → Bool} {keep : α → Bool} {heap rest : List α} {x y : α}

theorem Takes.mem (h : Takes comp keep heap x rest) : x ∈ heap ∧ ∀ y ∈ rest, y ∈ heap := by
  obtain ⟨skipped, -, hperm⟩ := h.skips
  exact ⟨hperm.mem_iff.mpr (by simp), fun y hy => hperm.mem_iff.mpr (by simp [hy])⟩

/-- What is to be kept is taken or left. -/
theorem Takes.keeps (h : Takes comp keep heap x rest) (hy : y ∈ heap) (hkeep : keep y = true) :
    y = x ∨ y ∈ rest := by
  obtain ⟨skipped, hskipped, hperm⟩ := h.skips
  rcases List.mem_append.mp (hperm.mem_iff.mp hy) with hmem | hmem
  · rw [hskipped y hmem] at hkeep
    cases hkeep
  · exact List.mem_cons.mp hmem

/-- **Popping with lazy deletion**: everything is dropped, or an element is taken. -/
theorem HeapAlgorithms.popUntil_spec (std : HeapAlgorithms) (comp : α → α → Bool) (keep : α → Bool) :
    ∀ (left : Nat) (l : List α), l.length = left →
      (std.popUntil comp keep left l = ([], none) ∧ ∀ y ∈ l, keep y = false) ∨
        ∃ x rest, std.popUntil comp keep left l = (rest, some x) ∧ Takes comp keep l x rest
  | 0, l, hlen => by
    obtain rfl := List.length_eq_zero_iff.mp hlen
    exact .inl ⟨rfl, nofun⟩
  | left + 1, l, hlen => by
    have hperm := std.popHeap_perm comp l
    obtain ⟨x, -, hback⟩ := std.popHeap_concat comp (List.ne_nil_of_length_eq_add_one hlen)
    have hlast : (std.popHeap comp l).getLast? = some x := by rw [hback, List.getLast?_concat]
    generalize hfront : (std.popHeap comp l).dropLast = front at hback
    have hsplit : l.Perm (x :: front) := by
      rw [hback] at hperm
      exact hperm.symm.trans (List.perm_append_singleton x front)
    have hordered : ∀ [IsStrictWeakOrder α (comp · ·)], IsHeap comp l → IsHeap comp front := fun hheap =>
      hfront ▸ std.popHeap_isHeap comp l hheap
    rw [popUntil, hlast]
    simp only [hfront]
    by_cases hkeep : keep x = true
    · rw [if_pos hkeep]
      refine .inr ⟨x, front, rfl, hkeep, ⟨[], nofun, hsplit⟩, fun hheap => ⟨hordered hheap, fun y hy => ?_⟩⟩
      refine hheap.front_greatest ?_ (hsplit.mem_iff.mpr (List.mem_cons_of_mem x hy))
      rw [← std.popHeap_back comp l hheap, hlast]
    · rw [if_neg hkeep]
      rw [Bool.not_eq_true] at hkeep
      have hfrontLen : front.length = left := by
        have hlength := hsplit.length_eq
        rw [hlen, List.length_cons] at hlength
        exact (Nat.succ.inj hlength).symm
      rcases std.popUntil_spec comp keep left front hfrontLen with ⟨hnone, hdead⟩ | ⟨taken, rest, hsome, htakes⟩
      · refine .inl ⟨hnone, fun y hy => ?_⟩
        rcases List.mem_cons.mp (hsplit.mem_iff.mp hy) with rfl | hy
        · exact hkeep
        · exact hdead y hy
      · refine .inr ⟨taken, rest, hsome, htakes.kept, ?_, fun hheap => htakes.least (hordered hheap)⟩
        obtain ⟨skipped, hskipped, hrest⟩ := htakes.skips
        exact ⟨x :: skipped, List.forall_mem_cons.mpr ⟨hkeep, hskipped⟩, hsplit.trans (hrest.cons x)⟩

theorem HeapAlgorithms.popUntil_subset (std : HeapAlgorithms) (comp : α → α → Bool) (keep : α → Bool) :
    ∀ (left : Nat) (l : List α), (std.popUntil comp keep left l).1 ⊆ l
  | 0, _ => List.Subset.refl _
  | left + 1, l => by
    have hfront : (std.popHeap comp l).dropLast ⊆ l := fun y hy =>
      (std.popHeap_perm comp l).mem_iff.mp ((List.dropLast_sublist _).mem hy)
    rw [popUntil]
    split
    · exact List.Subset.refl _
    · split
      · exact hfront
      · exact List.Subset.trans (popUntil_subset std comp keep left _) hfront

/-- Only what is in the heap counts. -/
theorem HeapAlgorithms.popUntil_congr (std : HeapAlgorithms) (comp : α → α → Bool) {keep keep' : α → Bool} :
    ∀ {l : List α}, (∀ y ∈ l, keep y = keep' y) → ∀ left : Nat,
      std.popUntil comp keep left l = std.popUntil comp keep' left l
  | _, _, 0 => rfl
  | l, h, left + 1 => by
    have hperm := std.popHeap_perm comp l
    rw [popUntil, popUntil]
    split
    · rfl
    · rename_i x hlast
      have hrest := popUntil_congr std comp (fun y hy => h y (hperm.mem_iff.mp ((List.dropLast_sublist _).mem hy))) left
      rw [h x (hperm.mem_iff.mp (List.mem_of_getLast? hlast)), hrest]

end Takes

/-! ## An implementation -/

/-- Sort the list so that nothing compares less than what stands behind it. -/
def sort {α : Type} (comp : α → α → Bool) (l : List α) : List α :=
  l.insertionSort fun a b => comp a b = false

theorem sort_isHeap {α : Type} {comp : α → α → Bool} [hc : IsStrictWeakOrder α (comp · ·)] (l : List α) :
    IsHeap comp (sort comp l) := by
  have htotal : Std.Total fun a b => comp a b = false := ⟨fun a b => by
    by_contra hboth
    simp only [not_or, Bool.not_eq_false] at hboth
    exact hc.irrefl a (hc.trans a b a hboth.1 hboth.2)⟩
  have htrans : IsTrans α fun a b => comp a b = false := ⟨fun _ _ _ => not_less_trans⟩
  exact isHeap_of_pairwise (List.pairwise_insertionSort _ l)

/-- Move the front to the back, and sort the rest. -/
def popSorted {α : Type} (comp : α → α → Bool) : List α → List α
  | [] => []
  | a :: l => sort comp l ++ [a]

/-- An implementation that keeps the whole list sorted. -/
def HeapAlgorithms.sorted : HeapAlgorithms where
  pushHeap := sort
  popHeap := popSorted
  pushHeap_perm comp l := List.perm_insertionSort _ l
  popHeap_perm comp l := by
    cases l with
    | nil => exact .refl _
    | cons a l => exact (List.perm_append_singleton a _).trans ((List.perm_insertionSort _ l).cons a)
  pushHeap_isHeap comp _ l _ := sort_isHeap l
  popHeap_isHeap comp _ l h := by
    cases l with
    | nil => exact h
    | cons a l =>
      rw [popSorted, List.dropLast_concat]
      exact sort_isHeap l
  popHeap_back comp _ l _ := by
    cases l with
    | nil => rfl
    | cons a l => exact List.getLast?_concat

end Libws.Heap
