import Mathlib.Algebra.Order.Monoid.Defs
import Mathlib.Algebra.Ring.Defs
import Mathlib.Data.Set.Card
import Mathlib.Logic.Function.Basic
import Mathlib.Logic.Relation

/-!
# Graph search with parent links

Vertices are found, and later closed; a found vertex has a link to a closed one.

* `IsPath`, `pathCost` — paths, written without their first vertex.
* `Tree` — the links of a search lead back to its start: `Tree.settle` and `Tree.relax` for the
  steps of a search, `Tree.climb_spec` for the way back.
* `closed_of_reachable`, `Tree.length_lt` — a search that has nothing left to close has closed
  what is reachable, and one that misses a reachable vertex has closed fewer vertices.
* `settle_least` — with a consistent heuristic, the open vertex with the least estimate is known
  at its least cost.
-/

set_option autoImplicit false

namespace Libws.Search

variable {V K : Type}

/-! ## Paths -/

/-- The vertices `p` after `s` lead from `s` to `t`. -/
def IsPath (step : V → V → Prop) : V → List V → V → Prop
  | s, [], t => s = t
  | s, v :: p, t => step s v ∧ IsPath step v p t

theorem isPath_append {step : V → V → Prop} {s t : V} {p q : List V} :
    IsPath step s (p ++ q) t ↔ ∃ m, IsPath step s p m ∧ IsPath step m q t := by
  induction p generalizing s with
  | nil =>
    constructor
    · intro h
      exact ⟨s, rfl, h⟩
    · rintro ⟨m, rfl, h⟩
      exact h
  | cons v p ih =>
    constructor
    · rintro ⟨hv, h⟩
      obtain ⟨m, hp, hq⟩ := ih.mp h
      exact ⟨m, ⟨hv, hp⟩, hq⟩
    · rintro ⟨m, ⟨hv, hp⟩, hq⟩
      exact ⟨hv, ih.mpr ⟨m, hp, hq⟩⟩

theorem IsPath.concat {step : V → V → Prop} {s u v : V} {p : List V} (h : IsPath step s p u) (hv : step u v) :
    IsPath step s (p ++ [v]) v :=
  isPath_append.mpr ⟨u, h, hv, rfl⟩

theorem IsPath.map {W : Type} {step : V → V → Prop} {step' : W → W → Prop} (f : V → W)
    (hstep : ∀ u v, step u v → step' (f u) (f v)) {s t : V} {p : List V} (h : IsPath step s p t) :
    IsPath step' (f s) (p.map f) (f t) := by
  induction p generalizing s with
  | nil => exact congrArg f h
  | cons v p ih => exact ⟨hstep s v h.1, ih h.2⟩

theorem IsPath.mono {step step' : V → V → Prop} (hstep : ∀ u v, step u v → step' u v) {s t : V} {p : List V}
    (h : IsPath step s p t) : IsPath step' s p t := by
  have hmap := h.map id hstep
  rwa [List.map_id] at hmap

theorem IsPath.isChain {step : V → V → Prop} {s t : V} {p : List V} (h : IsPath step s p t) :
    (s :: p).IsChain step := by
  induction p generalizing s with
  | nil => exact .singleton s
  | cons v p ih => exact .cons_cons h.1 (ih h.2)

theorem IsPath.getLast? {step : V → V → Prop} {s t : V} {p : List V} (h : IsPath step s p t) :
    (s :: p).getLast? = some t := by
  induction p generalizing s with
  | nil => exact congrArg some h
  | cons v p ih =>
    rw [List.getLast?_cons_cons]
    exact ih h.2

/-- Every vertex of a path but the first is stepped to. -/
theorem IsPath.step_to {step : V → V → Prop} {s t v : V} {p : List V} (h : IsPath step s p t) (hv : v ∈ p) :
    ∃ u, step u v := by
  induction p generalizing s with
  | nil => cases hv
  | cons w p ih =>
    rcases List.mem_cons.mp hv with rfl | hv
    · exact ⟨s, h.1⟩
    · exact ih h.2 hv

theorem IsPath.reachable {step : V → V → Prop} {s t : V} {p : List V} (h : IsPath step s p t) :
    Relation.ReflTransGen step s t := by
  induction p generalizing s with
  | nil =>
    obtain rfl : s = t := h
    exact .refl
  | cons v p ih => exact .head h.1 (ih h.2)

/-- What the path `p` costs from `s` on. -/
def pathCost [Zero K] [Add K] (cost : V → V → K) : V → List V → K
  | _, [] => 0
  | s, v :: p => cost s v + pathCost cost v p

theorem pathCost_append [AddMonoid K] {cost : V → V → K} {step : V → V → Prop} {s m : V} {p q : List V}
    (h : IsPath step s p m) : pathCost cost s (p ++ q) = pathCost cost s p + pathCost cost m q := by
  induction p generalizing s with
  | nil =>
    obtain rfl : s = m := h
    rw [List.nil_append, pathCost, zero_add]
  | cons v p ih =>
    rw [List.cons_append, pathCost, pathCost, ih h.2, add_assoc]

/-- The cost of the images of a path. -/
theorem pathCost_map {W : Type} [Zero K] [Add K] (cost : W → W → K) (f : V → W) (s : V) (p : List V) :
    pathCost cost (f s) (p.map f) = pathCost (fun u v => cost (f u) (f v)) s p := by
  induction p generalizing s with
  | nil => rfl
  | cons v p ih => rw [List.map_cons, pathCost, pathCost, ih]

/-- All steps at `w` times their cost. -/
theorem pathCost_mul [NonUnitalNonAssocSemiring K] (w : K) (cost : V → V → K) (s : V) (p : List V) :
    pathCost (fun u v => w * cost u v) s p = w * pathCost cost s p := by
  induction p generalizing s with
  | nil => rw [pathCost, pathCost, mul_zero]
  | cons v p ih => rw [pathCost, pathCost, ih, mul_add]

/-! ## The tree of links -/

/-- The search has come to the vertex: it is the start, or has a link. -/
def Found (start : V) (parent : V → Option V) (v : V) : Prop := v = start ∨ ∃ u, parent v = some u

/-- The links of a search that has closed the vertices `order`, the newest first. -/
structure Tree (step : V → V → Prop) (start : V) (order : List V) (parent : V → Option V) : Prop where
  root : parent start = none
  closed : ∀ v u, parent v = some u → u ∈ order ∧ step u v
  earlier : ∀ l v r, order = l ++ v :: r → ∀ u, parent v = some u → u ∈ r
  found : ∀ v ∈ order, Found start parent v
  nodup : order.Nodup
  first : order ≠ [] → start ∈ order

variable {step : V → V → Prop} {start : V} {order : List V} {parent : V → Option V}

theorem Tree.nil (hparent : ∀ v, parent v = none) : Tree step start [] parent where
  root := hparent start
  closed v u h := by rw [hparent v] at h; cases h
  earlier l v r h := absurd h (by simp)
  found v h := absurd h List.not_mem_nil
  nodup := .nil
  first h := absurd rfl h

/-- Close a vertex that was found. -/
theorem Tree.settle (h : Tree step start order parent) {v : V} (hv : v ∉ order) (hfound : Found start parent v) :
    Tree step start (v :: order) parent where
  root := h.root
  closed w u hw := ⟨List.mem_cons_of_mem v (h.closed w u hw).1, (h.closed w u hw).2⟩
  earlier l w r heq u hu := by
    cases l with
    | nil =>
      obtain ⟨rfl, rfl⟩ : v = w ∧ order = r := by simpa using heq
      exact (h.closed v u hu).1
    | cons x l =>
      obtain ⟨rfl, hrest⟩ : v = x ∧ order = l ++ w :: r := by simpa using heq
      exact h.earlier l w r hrest u hu
  found w hw := by
    rcases List.mem_cons.mp hw with rfl | hw
    · exact hfound
    · exact h.found w hw
  nodup := List.nodup_cons.mpr ⟨hv, h.nodup⟩
  first _ := by
    rcases hfound with rfl | ⟨u, hu⟩
    · exact List.mem_cons_self ..
    · exact List.mem_cons_of_mem v (h.first (List.ne_nil_of_mem (h.closed v u hu).1))

/-- Link an open vertex to a closed one. -/
theorem Tree.relax [DecidableEq V] (h : Tree step start order parent) {u v : V} (hu : u ∈ order) (hv : v ∉ order)
    (hstep : step u v) : Tree step start order (Function.update parent v (some u)) := by
  have hne : ∀ w ∈ order, Function.update parent v (some u) w = parent w := fun w hw =>
    Function.update_of_ne (fun heq : w = v => hv (heq ▸ hw)) ..
  have hstart := h.first (List.ne_nil_of_mem hu)
  refine ⟨(hne start hstart).trans h.root, fun w x hx => ?_, fun l w r heq x hx => ?_, fun w hw => ?_, h.nodup,
    h.first⟩
  · by_cases hw : w = v
    · subst hw
      rw [Function.update_self] at hx
      obtain rfl := Option.some.inj hx
      exact ⟨hu, hstep⟩
    · rw [Function.update_of_ne hw] at hx
      exact h.closed w x hx
  · rw [hne w (by rw [heq]; simp)] at hx
    exact h.earlier l w r heq x hx
  · rw [Found, hne w hw]
    exact h.found w hw

/-- Follow the links from `v`, and write down the vertices that have one. -/
def climb (parent : V → Option V) : Nat → V → List V → Option (List V)
  | 0, _, _ => none
  | n + 1, v, path =>
    match parent v with
    | none => some path
    | some u => climb parent n u (v :: path)

/-- The vertices that are written down do not depend on the fuel. -/
theorem climb_unique : ∀ (n m : Nat) (v : V) (path p p' : List V), climb parent n v path = some p →
    climb parent m v path = some p' → p = p'
  | 0, _, _, _, _, _, h, _ => by cases h
  | _ + 1, 0, _, _, _, _, _, h' => by cases h'
  | n + 1, m + 1, v, path, p, p', h, h' => by
    unfold climb at h h'
    cases hv : parent v with
    | none =>
      rw [hv] at h h'
      exact Option.some.inj (h.symm.trans h')
    | some u =>
      rw [hv] at h h'
      exact climb_unique n m u (v :: path) p p' h h'

/-- **The way back.**  The links of a closed vertex lead to the start, against the order in which
the vertices were closed. -/
theorem Tree.climb_spec (h : Tree step start order parent) : ∀ (n : Nat) (l : List V) (v : V) (r path : List V),
    order = l ++ v :: r → r.length < n →
    ∃ p, climb parent n v path = some (p ++ path) ∧ IsPath (fun u w => parent w = some u) start p v ∧
      p.reverse.Sublist (v :: r) ∧ start ∉ p
  | 0, _, _, _, _, _, hn => absurd hn (Nat.not_lt_zero _)
  | n + 1, l, v, r, path, heq, hn => by
    unfold climb
    cases hv : parent v with
    | none =>
      have hfound : Found start parent v := h.found v (by rw [heq]; simp)
      rcases hfound with rfl | ⟨u, hu⟩
      · exact ⟨[], rfl, rfl, List.nil_sublist _, List.not_mem_nil⟩
      · rw [hv] at hu
        cases hu
    | some u =>
      obtain ⟨l', r', rfl⟩ := List.append_of_mem (h.earlier l v r heq u hv)
      obtain ⟨p, hclimb, hpath, hsub, hstart⟩ :=
        h.climb_spec n (l ++ v :: l') u r' (v :: path) (by rw [heq]; simp) (by simp at hn; omega)
      refine ⟨p ++ [v], ?_, hpath.concat hv, ?_, ?_⟩
      · rw [List.append_assoc]
        exact hclimb
      · rw [List.reverse_append]
        exact (hsub.trans (List.sublist_append_right l' _)).cons_cons v
      · intro hmem
        rcases List.mem_append.mp hmem with hmem | hmem
        · exact hstart hmem
        · have hroot := h.root
          rw [List.mem_singleton.mp hmem, hv] at hroot
          cases hroot

/-- The links lead back to the root in one way only. -/
theorem links_unique {s : V} (hroot : parent s = none) {p : List V} : ∀ {p' : List V} {v : V},
    IsPath (fun u w => parent w = some u) s p v → IsPath (fun u w => parent w = some u) s p' v → p = p' := by
  induction p using List.reverseRecOn with
  | nil =>
    rintro p' v h h'
    obtain rfl : s = v := h
    rcases List.eq_nil_or_concat' p' with rfl | ⟨l, w, rfl⟩
    · rfl
    · obtain ⟨m, -, hw, rfl⟩ := isPath_append.mp h'
      rw [hroot] at hw
      cases hw
  | append_singleton l w ih =>
    rintro p' v h h'
    obtain ⟨m, hl, hw, rfl⟩ := isPath_append.mp h
    rcases List.eq_nil_or_concat' p' with rfl | ⟨l', w', rfl⟩
    · obtain rfl : s = w := h'
      rw [hroot] at hw
      cases hw
    · obtain ⟨m', hl', hw', rfl⟩ := isPath_append.mp h'
      rw [hw] at hw'
      obtain rfl := Option.some.inj hw'
      rw [ih hl hl']

/-! ## What a search reaches -/

theorem Tree.reachable (h : Tree step start order parent) : ∀ v ∈ order, Relation.ReflTransGen step start v := by
  intro v hv
  obtain ⟨l, r, heq⟩ := List.append_of_mem hv
  obtain ⟨p, -, hpath, -⟩ := h.climb_spec (r.length + 1) l v r [] heq (Nat.lt_succ_self _)
  exact (hpath.mono fun u w hw => (h.closed w u hw).2).reachable

/-- If every step from a closed vertex leads to a closed vertex, all that is reachable is closed. -/
theorem closed_of_reachable (hstart : start ∈ order) (hclosed : ∀ u ∈ order, ∀ v, step u v → v ∈ order) {v : V}
    (h : Relation.ReflTransGen step start v) : v ∈ order := by
  induction h with
  | refl => exact hstart
  | tail _ huv ih => exact hclosed _ ih _ huv

/-- A search that has not closed a reachable vertex has closed fewer than there are. -/
theorem Tree.length_lt [DecidableEq V] (h : Tree step start order parent) {v : V} (hv : v ∉ order)
    (hreach : Relation.ReflTransGen step start v) (hfin : {w | Relation.ReflTransGen step start w}.Finite) :
    order.length < {w | Relation.ReflTransGen step start w}.ncard := by
  have hsub : (↑(v :: order).toFinset : Set V) ⊆ {w | Relation.ReflTransGen step start w} := by
    intro w hw
    rw [List.coe_toFinset] at hw
    rcases List.mem_cons.mp hw with rfl | hw
    · exact hreach
    · exact h.reachable w hw
  have hle := Set.ncard_le_ncard hsub hfin
  rw [Set.ncard_coe_finset, List.toFinset_card_of_nodup (List.nodup_cons.mpr ⟨hv, h.nodup⟩)] at hle
  exact hle

/-! ## Costs -/

/-- Along the links the costs add up. -/
theorem pathCost_links [AddMonoid K] {cost : V → V → K} {g : V → K}
    (htight : ∀ v u, parent v = some u → g v = g u + cost u v) {s t : V} {p : List V}
    (h : IsPath (fun u w => parent w = some u) s p t) : g s + pathCost cost s p = g t := by
  induction p generalizing s with
  | nil =>
    obtain rfl : s = t := h
    rw [pathCost, add_zero]
  | cons v p ih => rw [pathCost, ← add_assoc, ← htight v s h.1, ih h.2]

/-- Where the costs are those of the paths along the links, they add up at every link. -/
theorem links_tight [AddMonoid K] {cost : V → V → K} {g : V → K} {s : V} (hroot : parent s = none)
    (hstart : g s = 0) (hexact : ∀ v u, parent v = some u →
      ∃ p, IsPath (fun u w => parent w = some u) s p v ∧
        g v = pathCost cost s p) {v u : V} (hv : parent v = some u) :
    g v = g u + cost u v := by
  have hpath : ∃ p, IsPath (fun u w => parent w = some u) s p u ∧ g u = pathCost cost s p := by
    obtain ⟨p, hp, -⟩ := hexact v u hv
    rcases List.eq_nil_or_concat' p with rfl | ⟨l, w, rfl⟩
    · obtain rfl : s = v := hp
      rw [hroot] at hv
      cases hv
    · obtain ⟨m, hl, hw, rfl⟩ := isPath_append.mp hp
      rw [hv] at hw
      obtain rfl := Option.some.inj hw
      rcases List.eq_nil_or_concat' l with rfl | ⟨l', w', rfl⟩
      · obtain rfl : s = u := hl
        exact ⟨[], rfl, hstart⟩
      · obtain ⟨m', -, hw', rfl⟩ := isPath_append.mp hl
        exact hexact w' m' hw'
  obtain ⟨p, hp, hcost⟩ := hexact v u hv
  obtain ⟨l, hl, hcost'⟩ := hpath
  obtain rfl := links_unique hroot hp (hl.concat hv)
  rw [hcost, hcost', pathCost_append hl, pathCost, pathCost, add_zero]

/-- A path out of the closed vertices leaves them somewhere. -/
theorem first_open {s t : V} {p : List V} (hs : s ∈ order) (h : IsPath step s p t) (ht : t ∉ order) :
    ∃ l u v r, p = l ++ v :: r ∧ IsPath step s l u ∧ u ∈ order ∧ step u v ∧ v ∉ order ∧ IsPath step v r t := by
  classical
  induction p generalizing s with
  | nil =>
    obtain rfl : s = t := h
    exact absurd hs ht
  | cons v p ih =>
    by_cases hv : v ∈ order
    · obtain ⟨l, u, w, r, rfl, hl, hu, huw, hw, hr⟩ := ih hv h.2
      exact ⟨v :: l, u, w, r, rfl, ⟨h.1, hl⟩, hu, huw, hw, hr⟩
    · exact ⟨[], s, v, p, rfl, rfl, hs, h.1, hv, h.2⟩

section Order

variable [AddCommMonoid K] [LinearOrder K] [IsOrderedCancelAddMonoid K] {cost : V → V → K} {h : V → K}

/-- Where no step has a negative cost, no path has. -/
theorem pathCost_nonneg {P : V → Prop} (hstep : ∀ u v, P u → step u v → P v ∧ 0 ≤ cost u v) {s t : V} {p : List V}
    (hs : P s) (hp : IsPath step s p t) : 0 ≤ pathCost cost s p := by
  induction p generalizing s with
  | nil => exact le_refl 0
  | cons v p ih => exact add_nonneg (hstep s v hs hp.1).2 (ih (hstep s v hs hp.1).1 hp.2)

/-- A consistent heuristic underestimates what is left of a path, except for its first step. -/
theorem consistent_path (hcons : ∀ u v w, step u v → step v w → h v ≤ cost v w + h w) {u v t : V} {p : List V}
    (huv : step u v) (hp : IsPath step v p t) : h v ≤ pathCost cost v p + h t := by
  induction p generalizing u v with
  | nil =>
    obtain rfl : v = t := hp
    rw [pathCost, zero_add]
  | cons w p ih =>
    calc h v ≤ cost v w + h w := hcons u v w huv hp.1
      _ ≤ cost v w + (pathCost cost w p + h t) := add_le_add_right (ih hp.1 hp.2) _
      _ = pathCost cost v (w :: p) + h t := by rw [pathCost, add_assoc]

/-- **The least estimate is exact.**  If the closed vertices have their least costs, and their steps
have been taken account of, then so has an open vertex with the least estimate. -/
theorem settle_least {g : V → K} (hcons : ∀ u v w, step u v → step v w → h v ≤ cost v w + h w)
    (hstart : start ∈ order) (hbest : ∀ v ∈ order, ∀ p, IsPath step start p v → g v ≤ pathCost cost start p)
    (hrelaxed : ∀ u ∈ order, ∀ v, step u v → v ∉ order → g v ≤ g u + cost u v) {x : V} (hx : x ∉ order)
    (hleast : ∀ u ∈ order, ∀ v, step u v → v ∉ order → g x + h x ≤ g v + h v) :
    ∀ p, IsPath step start p x → g x ≤ pathCost cost start p := by
  intro p hp
  obtain ⟨l, u, v, r, rfl, hl, hu, huv, hv, hr⟩ := first_open hstart hp hx
  have hsum : g x + h x ≤ pathCost cost start (l ++ v :: r) + h x :=
    calc g x + h x ≤ g v + h v := hleast u hu v huv hv
      _ ≤ (g u + cost u v) + h v := add_le_add_left (hrelaxed u hu v huv hv) _
      _ ≤ (pathCost cost start l + cost u v) + (pathCost cost v r + h x) :=
        add_le_add (add_le_add_left (hbest u hu l hl) _) (consistent_path hcons huv hr)
      _ = pathCost cost start (l ++ v :: r) + h x := by
        rw [pathCost_append hl, pathCost, ← add_assoc, ← add_assoc]
  exact le_of_add_le_add_right hsum

end Order

end Libws.Search
