import Mathlib.NumberTheory.LucasLehmer
import Libws.Core.AStarCount
import Libws.Core.AStarOptimal
import Libws.Core.AStarRun

/-!
# Maps beyond `int`

Widths and heights are `uint32_t`, but `resizeMap`, `getNode` and the loops compute in `int`, where a
width of `2 ^ 31` or more is negative.

* `Stuck`, `findPath_stuck` — a search that is undefined in its first round, at a cell without a node
  or in a loop that counts beyond `int`;
* `undefined_wide`, `undefined_ribbon`, `undefined_tall`, `undefined_large`, `undefined_line` — for
  each kind of size that is not `Numbered`, cells for which a search is undefined;
* `exists_undefined` — and for each that is not `Sized`: on `2 ^ 31` cells `count` overflows, in a
  search that has closed all of them but one;
* `finds_iff_reachable_iff` — what `findPath` does where `maxCount` is enough for the cells that can
  be reached, it does exactly on the maps that are `Numbered`;
* `every_path_walkable_iff`, `reuse_leaks_nothing_iff`, `finds_cheapest_iff` — and what it does for
  every `maxCount`, exactly on those of less than `2 ^ 31 - 1` cells.
-/

set_option autoImplicit false

namespace Libws.Core.AStar

open Libws.Heap Libws.Integer Libws.Loop Libws.Machine Libws.Search Relation

variable {U K : Type} [Zero K] [Add K] [LT K] [DecidableLT K] [BEq K] [NatCast K] [OfScientific K]

/-! ## A round that is undefined -/

/-- No cell that the search can step to from `start` has a node, and there is one, or the loops leave `int`. -/
structure Stuck (map : AbstractMap U) (userdata : U) (a : AStar K) (start : Int × Int) : Prop where
  missing : ∀ c, Step map userdata start c → ¬ (Indexed map c ∧ Allocated map a c)
  stuck : (∃ c, Step map userdata start c) ∨ ¬ int.Represents (start.1 + 2) ∨ ¬ int.Represents (start.2 + 2)

section Stuck

variable {q : Query U K} {a : AStar K} {current : Nat}

omit [NatCast K] [OfScientific K] in
/-- A visit does nothing, or finds no node. -/
theorem Stuck.visit (h : Stuck q.map q.userdata a (place a current)) {c : Int × Int}
    (hnear : (c.1 - (place a current).1).natAbs ≤ 1 ∧ (c.2 - (place a current).2).natAbs ≤ 1) :
    visit q.std q.map q.userdata q.heuristic q.getCost current q.end_ a c = some a ∧
        ¬ Step q.map q.userdata (place a current) c ∨
      visit q.std q.map q.userdata q.heuristic q.getCost current q.end_ a c = none := by
  cases hvisit : AStar.visit q.std q.map q.userdata q.heuristic q.getCost current q.end_ a c with
  | none => exact Or.inr rfl
  | some a' =>
    have hskip : ¬ Enters q.map q.userdata (place a current) c := fun henters =>
      h.missing c (step_iff.mpr ⟨henters, hnear⟩) (visit_given hvisit henters)
    refine Or.inl ⟨?_, fun hstep => hskip (step_iff.mp hstep).1⟩
    cases turn_of_visit hvisit with
    | skip => rfl
    | closed henters | keep henters | reach _ henters => exact absurd henters hskip

omit [NatCast K] [OfScientific K] in
/-- So does the loop over `y`, which fails at a cell that the search steps to. -/
theorem Stuck.column (h : Stuck q.map q.userdata a (place a current)) {x : Int}
    (hx : (x - (place a current).1).natAbs ≤ 1) :
    (visitColumn q.std q.map q.userdata q.heuristic q.getCost current q.end_ x a = some a ∨
        visitColumn q.std q.map q.userdata q.heuristic q.getCost current q.end_ x a = none) ∧
      ((∃ y, Step q.map q.userdata (place a current) (x, y)) ∨ ¬ int.Represents ((place a current).2 + 2) →
        visitColumn q.std q.map q.userdata q.heuristic q.getCost current q.end_ x a = none) := by
  have hbody : ∀ y, (a.nodes current).y - 1 ≤ y → y ≤ (a.nodes current).y + 1 →
      AStar.visit q.std q.map q.userdata q.heuristic q.getCost current q.end_ a (x, y) = some a ∨
        AStar.visit q.std q.map q.userdata q.heuristic q.getCost current q.end_ a (x, y) = none := by
    intro y hlow hhigh
    exact (h.visit ⟨hx, by simp only [place]; omega⟩).imp_left And.left
  refine ⟨forUpTo_still hbody _ _ (le_refl _), ?_⟩
  rintro (⟨y, hstep⟩ | hover)
  · have hnone := (h.visit hstep.1.2).resolve_left fun hskip => hskip.2 hstep
    obtain ⟨⟨-, -, hy⟩, -⟩ := hstep
    simp only [place] at hy
    exact forUpTo_fails hbody (j := y) (Or.inl ⟨by omega, hnone⟩) _ _ (le_refl _) (by omega)
  · exact forUpTo_fails hbody (j := (a.nodes current).y + 2) (Or.inr ⟨by omega, hover⟩) _ _ (le_refl _) (by omega)

omit [NatCast K] [OfScientific K] in
/-- The loops around the node fail. -/
theorem Stuck.visitColumns (h : Stuck q.map q.userdata a (place a current)) :
    visitColumns q.std q.map q.userdata q.heuristic q.getCost current q.end_ a = none := by
  have hbody : ∀ x, (a.nodes current).x - 1 ≤ x → x ≤ (a.nodes current).x + 1 →
      visitColumn q.std q.map q.userdata q.heuristic q.getCost current q.end_ x a = some a ∨
        visitColumn q.std q.map q.userdata q.heuristic q.getCost current q.end_ x a = none := fun x hlow hhigh =>
    (h.column (by simp only [place]; omega)).1
  rcases h.stuck with ⟨c, hstep⟩ | hover | hover
  · have hnone := (h.column hstep.1.2.1).2 (Or.inl ⟨c.2, hstep⟩)
    obtain ⟨⟨-, hx, -⟩, -⟩ := hstep
    simp only [place] at hx
    exact forUpTo_fails hbody (j := c.1) (Or.inl ⟨by omega, hnone⟩) _ _ (le_refl _) (by omega)
  · exact forUpTo_fails hbody (j := (a.nodes current).x + 2) (Or.inr ⟨by omega, hover⟩) _ _ (le_refl _) (by omega)
  · have hnone := (h.column (x := (a.nodes current).x) (by simp only [place]; omega)).2 (Or.inr hover)
    exact forUpTo_fails hbody (j := (a.nodes current).x) (Or.inl ⟨by omega, hnone⟩) _ _ (le_refl _) (by omega)

end Stuck

omit [Add K] [LT K] [DecidableLT K] [BEq K] [NatCast K] [OfScientific K] in
/-- The rows are as many as the map asks for or as there were, if their number is an `int`. -/
theorem resizeMap_rows (a : AStar K) (w h : Int) :
    a.resizeMap w h = none ∨ ∃ a₁, a.resizeMap w h = some a₁ ∧
      (a₁.mapNodes : Int) = max (a.mapNodes : Int) ((w * h + (NUM_NODE_SIZE - 1)) / NUM_NODE_SIZE) := by
  unfold resizeMap
  simp only
  split
  · refine Or.inr ?_
    split
    · exact ⟨_, rfl, by simp only; omega⟩
    · exact ⟨a, rfl, by omega⟩
  · exact Or.inl rfl

omit [BEq K] in
/-- The start is pushed with an `f` of 0. -/
theorem opens_f {std : HeapAlgorithms} {map : AbstractMap U} {a a₀ : AStar K}
    {start end_ : Int × Int} {userdata : U}
    (h : Fresh a) (hopens : opens std map a start end_ userdata = some a₀) :
    (a₀.nodes (index map start)).f = 0 := by
  have hclear : Fresh { a with lastPath := [], openHeap := [] } := ⟨h.generation, h.nodes⟩
  obtain ⟨-, -, a₁, hprepare, -, -, rfl⟩ := opens_eq hopens
  obtain ⟨x, y, hkeep⟩ := arrive_keeps map (arrive map a₁ start) end_ ((arrive_own map a₁ start _).mpr (Or.inl rfl))
  change ((arrive map (arrive map a₁ start) end_).nodes (index map start)).f = 0
  rw [hkeep, arrive_node, touch, if_pos ((hclear.prepare hprepare).2 _)]

omit [NatCast K] [OfScientific K] in
/-- The first round takes the start, and fails around it. -/
theorem Opened.stuck {q : Query U K} {a : AStar K} {start end_ : Int × Int} (h : Opened q.map start end_ a)
    (hf : ((a.nodes (index q.map start)).f == (a.nodes (index q.map start)).f) = true)
    (hother : index q.map start ≠ index q.map end_) (hend : q.end_ = index q.map end_)
    (hstuck : Stuck q.map q.userdata a start) (left : Nat) :
    search q.std q.map q.userdata q.heuristic q.getCost q.end_ (left + 1) a = none := by
  have hown := (h.own _).mpr (Or.inl rfl)
  obtain ⟨item, hitem, hitemf⟩ := h.pushed
  have hnode := h.items item hitem
  obtain ⟨v, hpop, -⟩ := popOpen_keeps q.std { a with count := a.count + 1 } hitem (by rw [hnode]; exact hown)
    (by rw [hnode]; exact (h.new _ hown).2.2) (by rw [hitemf, hnode]; exact hf)
  obtain ⟨heap, hheap, -, hfrom⟩ := popOpen_heap q.std { a with count := a.count + 1 }
  obtain ⟨⟨item', hitem', rfl⟩, -⟩ := hfrom v hpop
  rw [h.items item' hitem'] at hpop
  unfold search
  generalize ({ a with count := a.count + 1 } : AStar K).popOpen q.std = popped at hpop hheap ⊢
  obtain ⟨a₁, found⟩ := popped
  simp only at hpop hheap
  subst hpop hheap
  simp only
  rw [if_neg (hend ▸ hother)]
  generalize ha₂ : ({ a with count := a.count + 1, openHeap := heap } : AStar K).setNode (index q.map start)
    { ({ a with count := a.count + 1, openHeap := heap } : AStar K).nodes (index q.map start) with isClosed := true } = a₂
  have hrows : a₂.mapNodes = a.mapNodes := by rw [← ha₂]; rfl
  have hplace : place a₂ (index q.map start) = start := by
    rw [place, ← ha₂, setNode_closed]
    exact h.startAt hother
  have hstuck₂ : Stuck q.map q.userdata a₂ (place a₂ (index q.map start)) := by
    rw [hplace]
    exact ⟨fun c hstep => by rw [allocated_congr hrows]; exact hstuck.missing c hstep, hstuck.stuck⟩
  rw [hstuck₂.visitColumns]

/-- `findPath` is undefined where it is stuck at its start. -/
theorem findPath_stuck (std : HeapAlgorithms) (hzero : ((0 : K) == 0) = true) {map : AbstractMap U} {userdata : U}
    {a : AStar K} (h : Fresh a) (hmax : 0 < a.maxCount) {start end_ : Int × Int} (hne : start ≠ end_)
    (hfree : map.isBlock end_.1 end_.2 userdata = false) (hs : Indexed map start) (he : Indexed map end_)
    (hother : index map start ≠ index map end_)
    (hstuck : ∀ a₁, a.resizeMap (int.cast map.getWidth) (int.cast map.getHeight) = some a₁ →
      Allocated map a₁ start ∧ Allocated map a₁ end_ ∧ Stuck map userdata a₁ start) :
    a.findPath std map start.1 start.2 end_.1 end_.2 userdata = none := by
  cases hresize : a.resizeMap (int.cast map.getWidth) (int.cast map.getHeight) with
  | none =>
    have hcells : ¬ (start.1 = end_.1 ∧ start.2 = end_.2) := fun heq => hne (Prod.ext heq.1 heq.2)
    unfold findPath
    simp only
    rw [if_neg hcells, if_neg (by rw [hfree]; decide)]
    cases hprepare : ({ a with lastPath := [], openHeap := [] } : AStar K).prepare map with
    | none => rfl
    | some a₁ =>
      obtain ⟨a₂, hresize', -⟩ := prepare_rows hprepare
      rw [hresize] at hresize'
      cases hresize'
  | some a₁ =>
    obtain ⟨hs', he', hstuck⟩ := hstuck a₁ hresize
    obtain ⟨a₂, hprepare, hrows⟩ := prepare_total hresize
    rw [← allocated_congr hrows] at hs' he'
    obtain ⟨a₀, hopens⟩ := opens_total std hne hfree hprepare ⟨hs, hs'⟩ ⟨he, he'⟩
    obtain ⟨hopened, -, ⟨a₃, hresize', hrows'⟩, hmax'⟩ := opens_spec h hopens
    rw [hresize] at hresize'
    obtain rfl := Option.some.inj hresize'
    obtain ⟨left, hleft⟩ : ∃ left, a₀.maxCount.toNat = left + 1 := ⟨a₀.maxCount.toNat - 1, by omega⟩
    have hsearch := Opened.stuck (q := query std map a start end_ userdata) hopened
      (by simp only [query]; rw [opens_f h hopens]; exact hzero) hother rfl
      ⟨fun c hstep => by rw [allocated_congr hrows']; exact hstuck.missing c hstep, hstuck.stuck⟩ left
    simp only [query] at hsearch
    rw [findPath_opens hopens, hleft, hsearch]
    rfl

/-! ## Maps of every size -/

/-- A map of the same size with only these cells free. -/
def sparse (size : AbstractMap U) (free : List (Int × Int)) : AbstractMap U :=
  { size with isBlock := fun x y _ => decide ((x, y) ∉ free) }

theorem sparse_free {size : AbstractMap U} {free : List (Int × Int)} {userdata : U} {c : Int × Int} :
    (sparse size free).isBlock c.1 c.2 userdata = false ↔ c ∈ free := by
  simp only [sparse, decide_eq_false_iff_not, not_not]

theorem sparse_step {size : AbstractMap U} {free : List (Int × Int)} {userdata : U} {b c : Int × Int} :
    Step (sparse size free) userdata b c ↔ Neighbour b c ∧ InMap size c ∧ c ∈ free :=
  and_congr_right' (and_congr_right' sparse_free)

theorem cast_large {n : Nat} (hlow : 2 ^ 31 ≤ n) (hhigh : n < 2 ^ 32) : int.cast n = n - 2 ^ 32 := by
  simp only [IntType.cast, Width.modulus, Width.bytes, Int.bmod_def]
  omega

/-- A search between two cells of a map of the size, with few free cells, that is undefined. -/
structure Undefined (std : HeapAlgorithms) (a : AStar K) (size : AbstractMap U) (userdata : U)
    (free : List (Int × Int)) (start end_ : Int × Int) : Prop where
  startIn : InMap size start
  endIn : InMap size end_
  ne : start ≠ end_
  few : free.length ≤ 2
  undefined : a.findPath std (sparse size free) start.1 start.2 end_.1 end_.2 userdata = none

/-- The node of the cell is in the first row. -/
def FirstRow (size : AbstractMap U) (c : Int × Int) : Prop :=
  int.Represents (c.2 * int.cast size.getWidth) ∧ 0 ≤ c.2 * int.cast size.getWidth + c.1 ∧
    c.2 * int.cast size.getWidth + c.1 < NUM_NODE_SIZE

theorem FirstRow.indexed {size : AbstractMap U} {c : Int × Int} (h : FirstRow size c) : Indexed size c := by
  obtain ⟨hrow, hlow, hhigh⟩ := h
  unfold NUM_NODE_SIZE at hhigh
  exact ⟨hrow, represents_int.mpr (by omega)⟩

omit [Zero K] [Add K] [LT K] [DecidableLT K] [BEq K] [NatCast K] [OfScientific K] in
theorem FirstRow.allocated {size : AbstractMap U} {c : Int × Int} (h : FirstRow size c) {a : AStar K}
    (hrows : 1 ≤ a.mapNodes) : Allocated size a c := by
  obtain ⟨-, hlow, hhigh⟩ := h
  refine ⟨hlow, ?_⟩
  unfold index NUM_NODE_SIZE at *
  omega

section Undefined

variable (std : HeapAlgorithms) {a : AStar K} {size : AbstractMap U} (userdata : U) {start end_ c : Int × Int}

/-- A search that steps from its start to a cell without a node. -/
theorem undefined_at (hzero : ((0 : K) == 0) = true) (h : Fresh a) (hmax : 0 < a.maxCount) (hone : a.mapNodes = 1)
    (hstart : InMap size start) (hend : InMap size end_) (hc : InMap size c) (hs : FirstRow size start)
    (he : FirstRow size end_) (hother : index size start ≠ index size end_) (hnear : Neighbour start c)
    (hfar : ¬ Neighbour start end_)
    (hmissing : ∀ a₁, a.resizeMap (int.cast size.getWidth) (int.cast size.getHeight) = some a₁ →
      ¬ (Indexed size c ∧ Allocated size a₁ c)) :
    Undefined std a size userdata [end_, c] start end_ := by
  have hne : start ≠ end_ := fun heq => hother (by rw [heq])
  refine ⟨hstart, hend, hne, le_refl _, findPath_stuck std hzero h hmax hne (sparse_free.mpr (List.mem_cons_self ..))
    hs.indexed he.indexed hother fun a₁ hresize => ?_⟩
  have hrows : 1 ≤ a₁.mapNodes := by
    rcases resizeMap_rows a (int.cast size.getWidth) (int.cast size.getHeight) with hnone | ⟨a₂, hsome, hrows⟩
    · exact absurd (hnone.symm.trans hresize) (by simp)
    · obtain rfl := Option.some.inj (hsome.symm.trans hresize)
      omega
  refine ⟨hs.allocated hrows, he.allocated hrows, fun b hstep => ?_,
    Or.inl ⟨c, sparse_step.mpr ⟨hnear, hc, by simp⟩⟩⟩
  obtain ⟨hb, -, hmem⟩ := sparse_step.mp hstep
  rcases List.mem_cons.mp hmem with rfl | hmem
  · exact absurd hb hfar
  · rw [List.mem_singleton.mp hmem]
    exact hmissing a₁ hresize

/-- The width is negative as an `int`, and so are the indices of the second row. -/
theorem undefined_wide (hzero : ((0 : K) == 0) = true) (h : Fresh a) (hmax : 0 < a.maxCount) (hone : a.mapNodes = 1)
    (hwidth : 2 ^ 31 ≤ size.getWidth) (hheight : 2 ≤ size.getHeight) :
    Undefined std a size userdata [(2, 0), (0, 1)] (0, 0) (2, 0) := by
  have hlt := size.width_lt
  have hcast := cast_large hwidth hlt
  refine undefined_at std userdata hzero h hmax hone ?_ ?_ ?_ ?_ ?_ ?_ (by decide) (by decide) ?_
  · simp only [InMap]
    omega
  · simp only [InMap]
    omega
  · simp only [InMap]
    omega
  · simp only [FirstRow, represents_int, NUM_NODE_SIZE]
    omega
  · simp only [FirstRow, represents_int, NUM_NODE_SIZE]
    omega
  · simp only [index]
    omega
  · rintro a₁ - ⟨-, hlow, -⟩
    simp only at hlow
    omega

omit [Add K] [LT K] [DecidableLT K] [BEq K] [NatCast K] [OfScientific K] in
/-- Without a new row, there is no node behind the first one. -/
theorem unallocated (hone : a.mapNodes = 1) (hcells : int.cast size.getWidth * int.cast size.getHeight ≤ 0)
    (hc : NUM_NODE_SIZE ≤ c.2 * int.cast size.getWidth + c.1) {a₁ : AStar K}
    (hresize : a.resizeMap (int.cast size.getWidth) (int.cast size.getHeight) = some a₁) :
    ¬ Allocated size a₁ c := by
  rintro ⟨-, hlt⟩
  unfold index at hlt
  rcases resizeMap_rows a (int.cast size.getWidth) (int.cast size.getHeight) with hnone | ⟨a₂, hsome, hrows⟩
  · exact absurd (hnone.symm.trans hresize) (by simp)
  · obtain rfl := Option.some.inj (hsome.symm.trans hresize)
    generalize int.cast size.getWidth * int.cast size.getHeight = cells at hcells hrows
    generalize c.2 * int.cast size.getWidth + c.1 = node at hc hlt
    unfold NUM_NODE_SIZE at *
    omega

/-- The width is negative as an `int`, and so there are no rows for the one row of cells. -/
theorem undefined_ribbon (hzero : ((0 : K) == 0) = true) (h : Fresh a) (hmax : 0 < a.maxCount)
    (hone : a.mapNodes = 1) (hwidth : 2 ^ 31 ≤ size.getWidth) (hheight : size.getHeight = 1) :
    Undefined std a size userdata [(0, 0), (1024, 0)] (1023, 0) (0, 0) := by
  have hlt := size.width_lt
  have hcast := cast_large hwidth hlt
  refine undefined_at std userdata hzero h hmax hone ?_ ?_ ?_ ?_ ?_ ?_ (by decide) (by decide) ?_
  · simp only [InMap]
    omega
  · simp only [InMap]
    omega
  · simp only [InMap]
    omega
  · simp only [FirstRow, represents_int, NUM_NODE_SIZE]
    omega
  · simp only [FirstRow, represents_int, NUM_NODE_SIZE]
    omega
  · simp only [index]
    omega
  · rintro a₁ hresize ⟨-, halloc⟩
    refine unallocated hone ?_ ?_ hresize halloc
    · rw [hheight, show int.cast (1 : Nat) = 1 by decide]
      omega
    · simp only [NUM_NODE_SIZE]
      omega

/-- The height is negative as an `int`, and so there are no rows for the cells. -/
theorem undefined_tall (hzero : ((0 : K) == 0) = true) (h : Fresh a) (hmax : 0 < a.maxCount) (hone : a.mapNodes = 1)
    (hpos : 0 < size.getWidth) (hwidth : size.getWidth < 2 ^ 31) (hheight : 2 ^ 31 ≤ size.getHeight) :
    ∃ free start end_, Undefined std a size userdata free start end_ := by
  have hcast : int.cast size.getWidth = size.getWidth := cast_eq_self (represents_int.mpr (by omega))
  have hlt := size.height_lt
  have hnegative := cast_large hheight hlt
  -- the last row of cells that begins in the first row of nodes
  obtain ⟨y, hy, hy'⟩ : ∃ y, y * size.getWidth ≤ 1023 ∧ 1023 < y * size.getWidth + size.getWidth :=
    ⟨1023 / size.getWidth, Nat.div_mul_le_self .., Nat.lt_div_mul_add hpos⟩
  have hyle : y ≤ y * size.getWidth := Nat.le_mul_of_pos_right y hpos
  have hyw : y * size.getWidth = 0 ∨ size.getWidth ≤ y * size.getWidth := by
    rcases Nat.eq_zero_or_pos y with rfl | hy₀
    · exact Or.inl (Nat.zero_mul _)
    · exact Or.inr (Nat.le_mul_of_pos_left _ hy₀)
  have hyone : y ≤ 1 → y * size.getWidth ≤ 1 * size.getWidth := Nat.mul_le_mul_right _
  have hstart : (y : Int) * size.getWidth = (y * size.getWidth : Nat) := (Int.natCast_mul ..).symm
  have hbelow : ((y : Int) + 1) * size.getWidth = (y * size.getWidth + size.getWidth : Nat) := by
    rw [Int.add_mul, hstart, Int.one_mul, Int.natCast_add]
  have hat : ∀ end_ : Int × Int, InMap size end_ → FirstRow size end_ →
    index size (0, (y : Int)) ≠ index size end_ →
      ¬ Neighbour (0, (y : Int)) end_ → ∃ free start end_, Undefined std a size userdata free start end_ := by
    intro end_ hend he hother hfar
    refine ⟨_, _, end_, undefined_at std userdata hzero h hmax hone ?_ hend ?_ ?_ he hother
      (c := (0, (y : Int) + 1)) ?_ hfar ?_⟩
    · simp only [InMap]
      omega
    · simp only [InMap]
      omega
    · simp only [FirstRow, hcast, represents_int, NUM_NODE_SIZE]
      omega
    · simp only [Neighbour, ne_eq, Prod.mk.injEq]
      omega
    · rintro a₁ hresize ⟨-, halloc⟩
      refine unallocated hone ?_ ?_ hresize halloc
      · rw [hcast, hnegative]
        exact Int.mul_nonpos_of_nonneg_of_nonpos (Int.natCast_nonneg _) (by omega)
      · simp only [NUM_NODE_SIZE, hcast, hbelow]
        omega
  by_cases hwide : 3 ≤ size.getWidth
  · refine hat (2, 0) ?_ ?_ ?_ ?_
    · simp only [InMap]
      omega
    · simp only [FirstRow, represents_int, NUM_NODE_SIZE]
      omega
    · simp only [index, hcast, hstart]
      omega
    · rintro ⟨-, hx, -⟩
      simp only at hx
      omega
  · refine hat (0, 0) ?_ ?_ ?_ ?_
    · simp only [InMap]
      omega
    · simp only [FirstRow, represents_int, NUM_NODE_SIZE]
      omega
    · simp only [index, hcast, hstart]
      omega
    · rintro ⟨-, -, hy⟩
      simp only at hy
      omega

/-- The index of the last cell overflows. -/
theorem undefined_large (hwidth : size.getWidth < 2 ^ 31) (hheight : size.getHeight < 2 ^ 31)
    (hcells : 2 ^ 31 < size.getWidth * size.getHeight) :
    ∃ free start end_, Undefined std a size userdata free start end_ := by
  have hcast : int.cast size.getWidth = size.getWidth := cast_eq_self (represents_int.mpr (by omega))
  have hw : 0 < size.getWidth := Nat.pos_of_ne_zero fun h => by simp [h] at hcells
  have hh : 1 < size.getHeight := by
    by_contra hle
    have := Nat.mul_le_mul_left size.getWidth (Nat.not_lt.mp hle)
    omega
  have hlast : ((size.getHeight : Int) - 1) * size.getWidth + (size.getWidth - 1) =
      (size.getWidth * size.getHeight : Nat) - 1 := by
    rw [Int.sub_mul, Int.natCast_mul, Int.mul_comm, Int.one_mul]
    omega
  have hne : ((0 : Int), (0 : Int)) ≠ ((size.getWidth : Int) - 1, (size.getHeight : Int) - 1) := fun heq => by
    have := (Prod.mk.inj heq).2
    omega
  refine ⟨[((size.getWidth : Int) - 1, (size.getHeight : Int) - 1)], (0, 0), _, ?_, ?_, hne, by simp,
    findPath_overflows std hne (sparse_free.mpr (List.mem_singleton_self _)) ?_⟩
  · simp only [InMap]
    omega
  · simp only [InMap]
    omega
  · rintro ⟨-, -, hover⟩
    simp only [sparse, hcast, hlast, represents_int] at hover
    omega

/-- The loops around the last cell of a line count beyond `int`. -/
theorem undefined_line (hzero : ((0 : K) == 0) = true) (h : Fresh a) (hmax : 0 < a.maxCount) (hone : a.mapNodes = 1)
    (hline : size.getWidth = 2 ^ 31 - 1 ∧ size.getHeight = 1 ∨ size.getWidth = 1 ∧ size.getHeight = 2 ^ 31 - 1) :
    ∃ free start end_, Undefined std a size userdata free start end_ := by
  have hsize : int.cast size.getWidth = size.getWidth ∧ int.cast size.getHeight = size.getHeight := by
    constructor <;> exact cast_eq_self (represents_int.mpr (by omega))
  have hcells : int.cast size.getWidth * int.cast size.getHeight = 2 ^ 31 - 1 := by
    rw [hsize.1, hsize.2]
    rcases hline with ⟨hw, hh⟩ | ⟨hw, hh⟩ <;> rw [hw, hh] <;> rfl
  have hne : ((size.getWidth : Int) - 1, (size.getHeight : Int) - 1) ≠ (0, 0) := fun heq => by
    obtain ⟨hx, hy⟩ := Prod.mk.inj heq
    omega
  have hindex : 0 ≤ ((size.getHeight : Int) - 1) * size.getWidth ∧
      ((size.getHeight : Int) - 1) * size.getWidth + (size.getWidth - 1) = 2 ^ 31 - 2 := by
    rcases hline with ⟨hw, hh⟩ | ⟨hw, hh⟩ <;> rw [hw, hh] <;> exact ⟨by decide, rfl⟩
  generalize hrow : ((size.getHeight : Int) - 1) * size.getWidth = row at hindex
  refine ⟨[(0, 0)], _, (0, 0), ?_, ?_, hne, by simp, findPath_stuck std hzero h hmax hne
    (sparse_free.mpr (List.mem_singleton_self _)) ?_ ?_ ?_ fun a₁ hresize => ?_⟩
  · simp only [InMap]
    omega
  · simp only [InMap]
    omega
  · simp only [Indexed, sparse, hsize.1, hrow, represents_int]
    omega
  · simp only [Indexed, represents_int]
    omega
  · simp only [index, sparse, hsize.1, hrow]
    omega
  · have hrows : (a₁.mapNodes : Int) = 2 ^ 21 := by
      rcases resizeMap_rows a (int.cast size.getWidth) (int.cast size.getHeight) with hnone | ⟨a₂, hsome, hrows⟩
      · exact absurd (hnone.symm.trans hresize) (by simp)
      · obtain rfl := Option.some.inj (hsome.symm.trans hresize)
        rw [hrows, hcells, hone, NUM_NODE_SIZE]
        omega
    refine ⟨?_, ?_, fun c hstep => ?_, ?_⟩
    · simp only [Allocated, index, sparse, hsize.1, hrow, NUM_NODE_SIZE]
      omega
    · simp only [Allocated, index, NUM_NODE_SIZE, Int.zero_mul, Int.add_zero, Int.toNat_zero]
      omega
    · obtain ⟨⟨-, hx, hy⟩, -, hmem⟩ := sparse_step.mp hstep
      obtain rfl := List.mem_singleton.mp hmem
      simp only at hx hy
      omega
    · refine Or.inr ?_
      simp only [represents_int]
      omega

theorem line_of_cells {w h : Nat} (hcells : w * h = 2 ^ 31 - 1) :
    w = 2 ^ 31 - 1 ∧ h = 1 ∨ w = 1 ∧ h = 2 ^ 31 - 1 := by
  have hprime : (2 ^ 31 - 1).Prime := lucas_lehmer_sufficiency 31 (by norm_num) (by norm_num)
  rcases (Nat.dvd_prime hprime).mp ⟨h, hcells.symm⟩ with rfl | rfl
  · exact Or.inr ⟨rfl, by rwa [Nat.one_mul] at hcells⟩
  · exact Or.inl ⟨rfl, Nat.eq_of_mul_eq_mul_left (by decide) (hcells.trans (Nat.mul_one _).symm)⟩

/-- **On a larger map a search can be undefined.**  With one row of nodes, there are two cells of the
map, and few free ones, for which `findPath` is. -/
theorem undefined_beyond (hzero : ((0 : K) == 0) = true) (h : Fresh a) (hmax : 0 < a.maxCount)
    (hone : a.mapNodes = 1) (hlarge : ¬ Numbered size) :
    ∃ free start end_, Undefined std a size userdata free start end_ := by
  rw [Numbered, not_or, Sized] at hlarge
  obtain ⟨hlarge, hother⟩ := hlarge
  have hheight : size.getHeight ≠ 0 := fun h => hlarge (by rw [h, Nat.mul_zero]; decide)
  have hwidth : size.getWidth ≠ 0 := fun h => hlarge (by rw [h, Nat.zero_mul]; decide)
  by_cases hw : 2 ^ 31 ≤ size.getWidth
  · by_cases hrow : size.getHeight = 1
    · exact ⟨_, _, _, undefined_ribbon std userdata hzero h hmax hone hw hrow⟩
    · exact ⟨_, _, _, undefined_wide std userdata hzero h hmax hone hw (by omega)⟩
  by_cases hh : 2 ^ 31 ≤ size.getHeight
  · exact undefined_tall std userdata hzero h hmax hone (by omega) (by omega) hh
  by_cases hcells : 2 ^ 31 < size.getWidth * size.getHeight
  · exact undefined_large std userdata (by omega) (by omega) hcells
  -- neither side is a single cell where all indices fit
  have hsides : 1 < size.getWidth ∧ 1 < size.getHeight ∨ size.getWidth * size.getHeight < 2 ^ 31 := by
    by_cases hw₁ : size.getWidth = 1
    · rw [hw₁, Nat.one_mul]
      exact Or.inr (by omega)
    by_cases hh₁ : size.getHeight = 1
    · rw [hh₁, Nat.mul_one]
      exact Or.inr (by omega)
    exact Or.inl ⟨by omega, by omega⟩
  have hline : size.getWidth * size.getHeight = 2 ^ 31 - 1 := by
    rcases hsides with hsides | hfew
    · have hne : size.getWidth * size.getHeight ≠ 2 ^ 31 := fun heq => hother ⟨heq, hsides⟩
      omega
    · omega
  exact undefined_line std userdata hzero h hmax hone (line_of_cells hline)

/-- A call with a start outside its map leaves one row of nodes. -/
theorem one_row (userdata : U) (heuristic getCost : Int → Int → Int → Int → K) : ∃ (history : List (Call U K))
    (a : AStar K) (out : List (Option Bool)), runOps (step std) (AStar.new 9) history = some (a, out) ∧
      a.mapNodes = 1 ∧
      a.maxCount = 9 ∧ a.heuristic = some heuristic ∧ a.getCost = some getCost := by
  refine ⟨[.setHeuristic (some heuristic), .setGetCost (some getCost),
    .findPath { getWidth := 1, getHeight := 1, isBlock := fun _ _ _ => false } (-1) 0 0 0 userdata], ?_⟩
  simp +decide [runOps, step, findPath, prepare, resizeMap, nextGeneration, getNode, AStar.new,
    PathNode.new, setNode]

/-- A run on a larger map that is undefined, with few free cells. -/
theorem exists_unnumbered [Inhabited U] (hzero : ((0 : K) == 0) = true) (hlarge : ¬ Numbered size)
    (heuristic getCost : Int → Int → Int → Int → K) :
    ∃ (history : List (Call U K)) (a : AStar K) (out : List (Option Bool)) (free : List (Int × Int))
      (start end_ : Int × Int), runOps (step std) (AStar.new 9) history = some (a, out) ∧ a.maxCount = 9 ∧
      a.heuristic = some heuristic ∧ a.getCost = some getCost ∧ Undefined std a size default free start end_ := by
  obtain ⟨history, a, out, hrun, hone, hmax, hheuristic, hgetCost⟩ := one_row std (default : U) heuristic getCost
  obtain ⟨free, start, end_, h⟩ :=
    undefined_beyond std default hzero (fresh_of_calls hrun) (by rw [hmax]; decide) hone hlarge
  exact ⟨history, a, out, free, start, end_, hrun, hmax, hheuristic, hgetCost, h⟩

/-- **A run that is undefined**, on each size from `2 ^ 31 - 1` cells on. -/
theorem exists_undefined [Inhabited U] (hzero : ((0 : K) == 0) = true) {k : K}
    (hself : ∀ n : Nat, ((· + k)^[n] 0 + 0 == (· + k)^[n] 0 + 0) = true) (hlarge : ¬ Sized size) :
    ∃ (max : Int) (history : List (Call U K)) (a : AStar K) (out : List (Option Bool)) (map : AbstractMap U)
      (start end_ : Int × Int), runOps (step std) (AStar.new max) history = some (a, out) ∧
      a.heuristic = some (fun _ _ _ _ => 0) ∧ a.getCost = some (fun _ _ _ _ => k) ∧
      map.getWidth = size.getWidth ∧ map.getHeight = size.getHeight ∧ InMap map start ∧ InMap map end_ ∧
      start ≠ end_ ∧ a.findPath std map start.1 start.2 end_.1 end_.2 default = none := by
  by_cases hnumbered : Numbered size
  · have hcells := (hnumbered.resolve_left hlarge).1
    let map : AbstractMap U := { size with isBlock := fun _ _ _ => false }
    have hsame : Numbered map := hnumbered
    have hopen : ∀ x y, map.isBlock x y default = false := fun _ _ => rfl
    have hrun : runOps (step std) (AStar.new (2 ^ 31 - 1) : AStar K)
        [Call.setHeuristic (U := U) (some fun _ _ _ _ => 0), .setGetCost (some fun _ _ _ _ => k)] =
        some (({ AStar.new (2 ^ 31 - 1) with heuristic := some fun _ _ _ _ => 0, getCost := some fun _ _ _ _ => k }),
          [none, none]) := rfl
    obtain ⟨start, end_, hstart, hend, hne, hnone⟩ := exists_uncounted std hzero hself hsame hcells hopen
      (fresh_of_calls hrun) rfl rfl rfl
    exact ⟨_, _, _, _, map, start, end_, hrun, rfl, rfl, rfl, rfl, hstart, hend, hne, hnone⟩
  · obtain ⟨history, a, out, free, start, end_, hrun, -, hheuristic, hgetCost, h⟩ :=
      exists_unnumbered std hzero hnumbered (fun _ _ _ _ => (0 : K)) fun _ _ _ _ => k
    exact ⟨9, history, a, out, sparse size free, start, end_, hrun, hheuristic, hgetCost, rfl, rfl, h.startIn, h.endIn,
      h.ne, h.undefined⟩

end Undefined

/-! ## What holds on maps of a size -/

theorem Sized.congr {map size : AbstractMap U} (h : Sized size) (hwidth : map.getWidth = size.getWidth)
    (hheight : map.getHeight = size.getHeight) : Sized map := by
  unfold Sized at *
  rw [hwidth, hheight]
  exact h

theorem Numbered.congr {map size : AbstractMap U} (h : Numbered size) (hwidth : map.getWidth = size.getWidth)
    (hheight : map.getHeight = size.getHeight) : Numbered map := by
  unfold Numbered Sized at *
  rw [hwidth, hheight]
  exact h

omit [LT K] [DecidableLT K] [NatCast K] [OfScientific K] in
theorem sums_of_zero (hzero : ((0 : K) == 0) = true) (hadd : (0 : K) + 0 = 0) (n : Nat) :
    ((· + (0 : K))^[n] 0 + 0 == (· + (0 : K))^[n] 0 + 0) = true := by
  have hfixed : (· + (0 : K))^[n] 0 = 0 := Function.iterate_fixed (f := (· + (0 : K))) hadd n
  rw [hfixed, hadd]
  exact hzero

/-- **Every path is walkable on the maps of a size** if and only if the size is below `2 ^ 31 - 1`
cells. -/
theorem every_path_walkable_iff [Inhabited U] (std : HeapAlgorithms) (hzero : ((0 : K) == 0) = true)
    (hadd : (0 : K) + 0 = 0) (size : AbstractMap U) :
    (∀ (max : Int) (history : List (Call U K)) (a : AStar K) (out : List (Option Bool)),
      runOps (step std) (AStar.new max) history = some (a, out) → ∀ map : AbstractMap U,
      map.getWidth = size.getWidth → map.getHeight = size.getHeight → ∀ (userdata : U) (start end_ : Int × Int),
      InMap map start → InMap map end_ → start ≠ end_ →
      ∃ a' found, a.findPath std map start.1 start.2 end_.1 end_.2 userdata = some (a', found) ∧
        (found = true → Walkable map userdata start end_ a'.path) ∧ (found = false → a'.lastPath = [])) ↔
    Sized size := by
  refine ⟨fun hwalkable => by_contra fun hlarge => ?_, fun hsized max history a out hrun map hwidth hheight =>
    every_path_walkable std max history a out hrun map (hsized.congr hwidth hheight)⟩
  obtain ⟨max, history, a, out, map, start, end_, hrun, -, -, hwidth, hheight, hstart, hend, hne, hnone⟩ :=
    exists_undefined std hzero (sums_of_zero hzero hadd) hlarge
  obtain ⟨a', found, hfind, -⟩ :=
    hwalkable max history a out hrun map hwidth hheight default start end_ hstart hend hne
  rw [hnone] at hfind
  cases hfind

/-- The second search on the same `AStar`, around the block. -/
theorem every_path_walkable_iff_gate : ∃ (a a' : AStar ℚ),
    runOps (step HeapAlgorithms.sorted) (AStar.new 9) [.findPath gate 2 0 0 1 ()] = some (a, [some true]) ∧
      a.findPath HeapAlgorithms.sorted gate 0 0 2 0 () = some (a', true) ∧ a'.path = [(1, 1), (2, 0)] ∧
      Walkable gate () (0, 0) (2, 0) a'.path := by
  have hfirst : ((runOps (step HeapAlgorithms.sorted) (AStar.new 9 : AStar ℚ)
      [.findPath gate 2 0 0 1 ()]).map fun r => r.2) = some [some true] := by decide +kernel
  obtain ⟨⟨a, out⟩, hrun, hout⟩ := Option.map_eq_some_iff.mp hfirst
  have hsecond : ((runOps (step HeapAlgorithms.sorted) (AStar.new 9 : AStar ℚ) [.findPath gate 2 0 0 1 ()]).bind
      fun r => (r.1.findPath HeapAlgorithms.sorted gate 0 0 2 0 ()).map fun r => (r.2, r.1.path)) =
        some (true, [(1, 1), (2, 0)]) := by decide +kernel
  rw [hrun] at hsecond
  obtain ⟨⟨a', found⟩, hfind, hresult⟩ := Option.map_eq_some_iff.mp hsecond
  obtain ⟨rfl, hpath⟩ := Prod.mk.inj hresult
  simp only at hout
  obtain ⟨a'', found', hfind', hwalkable, -⟩ := (every_path_walkable_iff HeapAlgorithms.sorted (by decide)
    (add_zero 0) gate).mpr (by decide) 9 _ a out hrun gate rfl rfl () (0, 0) (2, 0) (by decide) (by decide) (by decide)
  rw [hfind] at hfind'
  obtain ⟨rfl, rfl⟩ := Prod.mk.inj (Option.some.inj hfind')
  exact ⟨a, a', hout ▸ hrun, hfind, hpath, hwalkable rfl⟩

/-- In two rows of `2 ^ 32 - 1` cells, (2, 0) and (3, 1) have the same node. -/
def ledge : AbstractMap Unit where
  getWidth := 2 ^ 32 - 1
  getHeight := 2
  isBlock x y _ := (x, y) ∉ [(1, 0), (2, 0), (3, 1)]
  height_lt := square.height_lt

/-- A path that does not lead to its end. -/
theorem path_not_walkable : ∃ a a' : AStar ℚ,
    runOps (step HeapAlgorithms.sorted) (AStar.new 9) [.findPath square 0 0 1 0 ()] = some (a, [some true]) ∧
      InMap ledge (1, 0) ∧ InMap ledge (3, 1) ∧
      a.findPath HeapAlgorithms.sorted ledge 1 0 3 1 () = some (a', true) ∧ a'.path = [(2, 0)] ∧
      ¬ Walkable ledge () (1, 0) (3, 1) a'.path := by
  have hfirst : ((runOps (step HeapAlgorithms.sorted) (AStar.new 9 : AStar ℚ)
      [.findPath square 0 0 1 0 ()]).map fun r => r.2) = some [some true] := by decide +kernel
  obtain ⟨⟨a, out⟩, hrun, hout⟩ := Option.map_eq_some_iff.mp hfirst
  have hsecond : ((runOps (step HeapAlgorithms.sorted) (AStar.new 9 : AStar ℚ) [.findPath square 0 0 1 0 ()]).bind
      fun r => (r.1.findPath HeapAlgorithms.sorted ledge 1 0 3 1 ()).map fun r => (r.2, r.1.path)) =
        some (true, [(2, 0)]) := by decide +kernel
  rw [hrun] at hsecond
  obtain ⟨⟨a', found⟩, hfind, hresult⟩ := Option.map_eq_some_iff.mp hsecond
  obtain ⟨rfl, hpath⟩ := Prod.mk.inj hresult
  simp only at hout
  refine ⟨a, a', hout ▸ hrun, by decide, by decide, hfind, hpath, fun h => ?_⟩
  have hlast := h.last
  rw [hpath] at hlast
  exact absurd hlast (by decide)

/-- **A reused `AStar` leaks nothing on the maps of a size** if and only if the size is below
`2 ^ 31 - 1` cells. -/
theorem reuse_leaks_nothing_iff [Inhabited U] (std : HeapAlgorithms) (hzero : ((0 : K) == 0) = true)
    (hadd : (0 : K) + 0 = 0) (size : AbstractMap U) :
    (∀ (max : Int) (history : List (Call U K)) (a : AStar K) (out : List (Option Bool)),
      runOps (step std) (AStar.new max) history = some (a, out) →
      ∀ heuristic getCost : Option (Int → Int → Int → Int → K),
      heuristic.getD manhattanDistance = a.heuristic.getD manhattanDistance →
      getCost.getD commonCost = a.getCost.getD commonCost → ∀ map : AbstractMap U,
      map.getWidth = size.getWidth → map.getHeight = size.getHeight → ∀ (userdata : U) (start end_ : Int × Int),
      InMap map start → InMap map end_ →
      ∃ a' b' found, a.findPath std map start.1 start.2 end_.1 end_.2 userdata = some (a', found) ∧
        ({ AStar.new a.maxCount with heuristic := heuristic, getCost := getCost } : AStar K).findPath std map
          start.1 start.2 end_.1 end_.2 userdata = some (b', found) ∧ a'.path = b'.path) ↔
    Sized size := by
  refine ⟨fun hsame => by_contra fun hlarge => ?_,
    fun hsized max history a out hrun heuristic getCost hheuristic hgetCost
    map hwidth hheight => reuse_leaks_nothing std max history a out hrun heuristic getCost hheuristic hgetCost map
      (hsized.congr hwidth hheight)⟩
  obtain ⟨max, history, a, out, map, start, end_, hrun, -, -, hwidth, hheight, hstart, hend, -, hnone⟩ :=
    exists_undefined std hzero (sums_of_zero hzero hadd) hlarge
  obtain ⟨a', b', found, hfind, -⟩ :=
    hsame max history a out hrun a.heuristic a.getCost rfl rfl map hwidth hheight default start end_ hstart hend
  rw [hnone] at hfind
  cases hfind

/-- On a map of another width, with the nodes of the first search still in the rows. -/
theorem reuse_leaks_nothing_iff_gate : ∃ (a a' b' : AStar ℚ) (found : Bool),
    runOps (step HeapAlgorithms.sorted) (AStar.new 9) [.findPath square 0 0 1 1 ()] =
      some (a, [some true]) ∧
    a.findPath HeapAlgorithms.sorted gate 0 0 2 0 () = some (a', found) ∧
    ({ AStar.new a.maxCount with heuristic := a.heuristic, getCost := a.getCost } : AStar ℚ).findPath
      HeapAlgorithms.sorted gate 0 0 2 0 () = some (b', found) ∧
    a'.path = b'.path := by
  have hfirst : ((runOps (step HeapAlgorithms.sorted) (AStar.new 9 : AStar ℚ)
      [.findPath square 0 0 1 1 ()]).map fun r => r.2) = some [some true] := by decide +kernel
  obtain ⟨⟨a, out⟩, hrun, hout⟩ := Option.map_eq_some_iff.mp hfirst
  simp only at hout
  subst hout
  obtain ⟨a', b', found, hfind, hfind', hpath⟩ := (reuse_leaks_nothing_iff HeapAlgorithms.sorted (by decide)
    (add_zero 0) gate).mpr (by decide) 9 _ a _ hrun a.heuristic a.getCost rfl rfl gate rfl rfl () (0, 0) (2, 0)
    (by decide) (by decide)
  exact ⟨a, a', b', found, hrun, hfind, hfind', hpath⟩

/-- One row of `2 ^ 31` cells, two of them free. -/
def ribbon : AbstractMap Unit where
  getWidth := 2 ^ 31
  getHeight := 1
  isBlock x y _ := (x, y) ∉ [(0, 0), (1, 0)]

/-- A new `AStar` has no row for the ribbon, and one that was used before has. -/
theorem reuse_leaks_rows : ∃ a a' b' : AStar ℚ,
    runOps (step HeapAlgorithms.sorted) (AStar.new 9) [.findPath square 0 0 1 0 ()] = some (a, [some true]) ∧
      InMap ribbon (0, 0) ∧ InMap ribbon (1, 0) ∧
      a.findPath HeapAlgorithms.sorted ribbon 0 0 1 0 () = some (a', true) ∧
      (AStar.new 9 : AStar ℚ).findPath HeapAlgorithms.sorted ribbon 0 0 1 0 () = some (b', false) := by
  have hfirst : ((runOps (step HeapAlgorithms.sorted) (AStar.new 9 : AStar ℚ)
      [.findPath square 0 0 1 0 ()]).map fun r => r.2) = some [some true] := by decide +kernel
  obtain ⟨⟨a, out⟩, hrun, hout⟩ := Option.map_eq_some_iff.mp hfirst
  have hsecond : ((runOps (step HeapAlgorithms.sorted) (AStar.new 9 : AStar ℚ) [.findPath square 0 0 1 0 ()]).bind
      fun r => (r.1.findPath HeapAlgorithms.sorted ribbon 0 0 1 0 ()).map fun r =>
        r.2) = some true := by decide +kernel
  have hnew : ((AStar.new 9 : AStar ℚ).findPath HeapAlgorithms.sorted ribbon 0 0 1 0 ()).map (fun r => r.2) =
      some false := by decide +kernel
  rw [hrun] at hsecond
  obtain ⟨⟨a', found⟩, hfind, hfound⟩ := Option.map_eq_some_iff.mp hsecond
  obtain ⟨⟨b', missed⟩, hfind', hmissed⟩ := Option.map_eq_some_iff.mp hnew
  simp only at hout hfound hmissed
  subst hout hfound hmissed
  exact ⟨a, a', b', hrun, by decide, by decide, hfind, hfind'⟩

section LinearOrder

variable {U K : Type} [LinearOrder K] [Zero K] [Add K] [NatCast K] [OfScientific K]

/-- No more cells are reached than the start and the free ones. -/
theorem sparse_reached (size : AbstractMap U) (free : List (Int × Int)) (userdata : U) (start : Int × Int) :
    {c | ReflTransGen (Step (sparse size free) userdata) start c}.ncard ≤ free.length + 1 := by
  have hsub : {c | ReflTransGen (Step (sparse size free) userdata) start c} ⊆ ((start :: free).toFinset : Set (Int × Int)) := by
    intro c hreach
    rw [Finset.mem_coe, List.mem_toFinset]
    rcases hreach.cases_tail with rfl | ⟨b, -, hstep⟩
    · exact List.mem_cons_self ..
    · exact List.mem_cons_of_mem _ (sparse_step.mp hstep).2.2
  have hle := Set.ncard_le_ncard hsub (Finset.finite_toSet _)
  rw [Set.ncard_coe_finset] at hle
  exact hle.trans (List.toFinset_card_le _)

/-- **`findPath` is complete on the maps of a size** if and only if each of their cells has an index of
its own in `int`, and so have the bounds of the loops around it. -/
theorem finds_iff_reachable_iff [Inhabited U] (std : HeapAlgorithms) (size : AbstractMap U) :
    (∀ (max : Int) (history : List (Call U K)) (a : AStar K) (out : List (Option Bool)),
      runOps (step std) (AStar.new max) history = some (a, out) → ∀ map : AbstractMap U,
      map.getWidth = size.getWidth → map.getHeight = size.getHeight → ∀ (userdata : U) (start end_ : Int × Int),
      InMap map start → InMap map end_ → start ≠ end_ →
      ({c | ReflTransGen (Step map userdata) start c}.ncard : Int) ≤ a.maxCount →
      ∃ a' found, a.findPath std map start.1 start.2 end_.1 end_.2 userdata = some (a', found) ∧
        (found = true ↔
          map.isBlock end_.1 end_.2 userdata = false ∧ ReflTransGen (Step map userdata) start end_)) ↔
    Numbered size := by
  refine ⟨fun hcomplete => by_contra fun hlarge => ?_, fun hnumbered max history a out hrun map hwidth hheight =>
    finds_iff_reachable std max history a out hrun map (hnumbered.congr hwidth hheight)⟩
  obtain ⟨history, a, out, free, start, end_, hrun, hmax, -, -, h⟩ :=
    exists_unnumbered std (beq_self_eq_true _) hlarge (fun _ _ _ _ => (0 : K)) fun _ _ _ _ => 0
  have hreached := sparse_reached size free default start
  have hfew := h.few
  obtain ⟨a', found, hfind, -⟩ := hcomplete 9 history a out hrun (sparse size free) rfl rfl default start end_
    h.startIn h.endIn h.ne (by rw [hmax]; omega)
  rw [h.undefined] at hfind
  cases hfind

/-- On the map of three cells by two, `findPath` returns true, and so there is a way. -/
theorem finds_iff_reachable_iff_gate :
    ((AStar.new 9 : AStar ℚ).findPath HeapAlgorithms.sorted gate 0 0 2 0 ()).map (fun r => r.2) = some true ∧
      ReflTransGen (Step gate ()) (0, 0) (2, 0) := by
  have hfound : ((AStar.new 9 : AStar ℚ).findPath HeapAlgorithms.sorted gate 0 0 2 0 ()).map (fun r => r.2) =
      some true := by decide +kernel
  have hncard := (reachable_finite (by decide) () (show InMap gate (0, 0) by decide)).2
  have hsize : gate.getWidth * gate.getHeight ≤ 9 := by decide
  obtain ⟨a', found, hfind, hiff⟩ := (finds_iff_reachable_iff HeapAlgorithms.sorted gate).mpr (by decide) 9 []
    (AStar.new 9 : AStar ℚ) [] rfl gate rfl rfl () (0, 0) (2, 0) (by decide) (by decide) (by decide)
    (by change (_ : Int) ≤ 9; omega)
  simp only at hfind
  rw [hfind] at hfound
  exact ⟨by rw [hfind]; exact hfound, (hiff.mp (Option.some.inj hfound)).2⟩

/-- A new `AStar` does not find the next cell of the ribbon. -/
theorem next_cell_missed : ∃ a' : AStar ℚ,
    (AStar.new 9 : AStar ℚ).findPath HeapAlgorithms.sorted ribbon 0 0 1 0 () = some (a', false) ∧
      InMap ribbon (0, 0) ∧ InMap ribbon (1, 0) ∧
      ({c | ReflTransGen (Step ribbon ()) (0, 0) c}.ncard : Int) ≤ (AStar.new 9 : AStar ℚ).maxCount ∧
      ribbon.isBlock 1 0 () = false ∧ ReflTransGen (Step ribbon ()) (0, 0) (1, 0) := by
  have hnew : ((AStar.new 9 : AStar ℚ).findPath HeapAlgorithms.sorted ribbon 0 0 1 0 ()).map (fun r => r.2) =
      some false := by decide +kernel
  obtain ⟨⟨a', missed⟩, hfind, hmissed⟩ := Option.map_eq_some_iff.mp hnew
  simp only at hmissed
  subst hmissed
  have hreached : {c | ReflTransGen (Step ribbon ()) (0, 0) c}.ncard ≤ 3 :=
    sparse_reached ribbon [(0, 0), (1, 0)] () (0, 0)
  refine ⟨a', hfind, by decide, by decide, ?_, by decide, .single (by decide)⟩
  simp only [AStar.new]
  omega

end LinearOrder

section Ordered

variable {U K : Type} [AddCommMonoid K] [LinearOrder K] [IsOrderedCancelAddMonoid K] [NatCast K] [OfScientific K]

/-- **`findPath` finds a cheapest path on the maps of a size** if and only if the size is below
`2 ^ 31 - 1` cells. -/
theorem finds_cheapest_iff [Inhabited U] (std : HeapAlgorithms) (hpositive : ∃ k : K, 0 < k) (size : AbstractMap U) :
    (∀ (max : Int) (history : List (Call U K)) (a : AStar K) (out : List (Option Bool)),
      runOps (step std) (AStar.new max) history = some (a, out) → ∀ map : AbstractMap U,
      map.getWidth = size.getWidth → map.getHeight = size.getHeight → ∀ (userdata : U) (start end_ : Int × Int),
      InMap map start → (map.isBlock end_.1 end_.2 userdata = false → InMap map end_) → start ≠ end_ →
      ∀ heuristic getCost : Int → Int → Int → Int → K, a.heuristic.getD manhattanDistance = heuristic →
      a.getCost.getD commonCost = getCost →
      (∀ b c, InMap map b → InMap map c → Neighbour b c → 0 < getCost b.1 b.2 c.1 c.2) →
      (∀ b c, InMap map b → map.isBlock b.1 b.2 userdata = false → Step map userdata b c →
        heuristic b.1 b.2 end_.1 end_.2 ≤ getCost b.1 b.2 c.1 c.2 + heuristic c.1 c.2 end_.1 end_.2) →
      ∃ a' found, a.findPath std map start.1 start.2 end_.1 end_.2 userdata = some (a', found) ∧
        (found = true →
          IsLeast {k | ∃ p, IsPath (Step map userdata) start p end_ ∧ pathCost (stepCost getCost) start p = k}
            (pathCost (stepCost getCost) start a'.path))) ↔
    Sized size := by
  refine ⟨fun hcheapest => by_contra fun hlarge => ?_, fun hsized max history a out hrun map hwidth hheight =>
    finds_cheapest std max history a out hrun map (hsized.congr hwidth hheight)⟩
  obtain ⟨cost, hcost⟩ := hpositive
  obtain ⟨max, history, a, out, map, start, end_, hrun, hheuristic, hgetCost, hwidth, hheight, hstart, hend, hne,
    hnone⟩ := exists_undefined std (beq_self_eq_true _) (fun _ => beq_self_eq_true _) hlarge (k := cost)
  obtain ⟨a', found, hfind, -⟩ := hcheapest max history a out hrun map hwidth hheight default start end_ hstart
    (fun _ => hend) hne (fun _ _ _ _ => 0) (fun _ _ _ _ => cost) (by rw [hheuristic]; rfl) (by rw [hgetCost]; rfl)
    (fun _ _ _ _ _ => hcost) fun _ _ _ _ _ => by rw [add_zero]; exact hcost.le
  rw [hnone] at hfind
  cases hfind

/-- The larger one of the two distances. -/
def chebyshev (x y endX endY : Int) : ℚ := (max (x - endX).natAbs (y - endY).natAbs : Nat)

/-- Around the block in the map of three cells by two, with steps of cost 1. -/
theorem finds_cheapest_iff_gate : ∃ (a a' : AStar ℚ),
    runOps (step HeapAlgorithms.sorted) (AStar.new 9)
      [Call.setHeuristic (U := Unit) (some chebyshev),
        .setGetCost (some fun _ _ _ _ => 1)] = some (a, [none, none]) ∧
      a.findPath HeapAlgorithms.sorted gate 0 0 2 0 () = some (a', true) ∧
      IsLeast {k | ∃ p, IsPath (Step gate ()) (0, 0) p (2, 0) ∧ pathCost (stepCost fun _ _ _ _ => 1) (0, 0) p = k}
        (pathCost (stepCost fun _ _ _ _ => (1 : ℚ)) (0, 0) a'.path) := by
  have hrun : runOps (step HeapAlgorithms.sorted) (AStar.new 9 : AStar ℚ)
      [Call.setHeuristic (U := Unit) (some chebyshev), .setGetCost (some fun _ _ _ _ => 1)] =
        some (({ AStar.new 9 with heuristic := some chebyshev, getCost := some fun _ _ _ _ => 1 } : AStar ℚ),
          [none, none]) := rfl
  have hfound : (({ AStar.new 9 with heuristic := some chebyshev, getCost := some fun _ _ _ _ => 1 } : AStar ℚ).findPath
      HeapAlgorithms.sorted gate 0 0 2 0 ()).map (fun r => r.2) = some true := by decide +kernel
  obtain ⟨a', found, hfind, hleast⟩ := (finds_cheapest_iff HeapAlgorithms.sorted ⟨1, one_pos⟩ gate).mpr
    (by decide) 9 _ _ _ hrun gate rfl rfl () (0, 0) (2, 0) (by decide) (fun _ => by decide)
    (by decide) chebyshev (fun _ _ _ _ => 1) rfl rfl (fun _ _ _ _ _ => by norm_num) (by
      intro b c _ _ hstep
      obtain ⟨⟨-, hx, hy⟩, -⟩ := hstep
      have hcolumn : (b.1 - 2).natAbs ≤ 1 + (c.1 - 2).natAbs := by omega
      have hrow : (b.2 - 0).natAbs ≤ 1 + (c.2 - 0).natAbs := by omega
      have hle : max (b.1 - 2).natAbs (b.2 - 0).natAbs ≤ 1 + max (c.1 - 2).natAbs (c.2 - 0).natAbs := by
        rw [← Nat.add_max_add_left]
        exact max_le_max hcolumn hrow
      unfold chebyshev
      exact_mod_cast hle)
  simp only at hfind
  rw [hfind] at hfound
  obtain rfl : found = true := Option.some.inj hfound
  exact ⟨_, a', hrun, hfind, hleast rfl⟩

/-- On the ledge a path costs 1 that is not the least, which is 2. -/
theorem path_not_cheapest : ∃ a a' : AStar ℚ,
    runOps (step HeapAlgorithms.sorted) (AStar.new 9) [.setHeuristic (some fun _ _ _ _ => 0),
      .setGetCost (some fun _ _ _ _ => 1), .findPath square 0 0 1 0 ()] = some (a, [none, none, some true]) ∧
      InMap ledge (1, 0) ∧ InMap ledge (3, 1) ∧
      a.findPath HeapAlgorithms.sorted ledge 1 0 3 1 () = some (a', true) ∧
      ¬ IsLeast {k | ∃ p, IsPath (Step ledge ()) (1, 0) p (3, 1) ∧ pathCost (stepCost fun _ _ _ _ => 1) (1, 0) p = k}
        (pathCost (stepCost fun _ _ _ _ => (1 : ℚ)) (1, 0) a'.path) := by
  have hfirst : ((runOps (step HeapAlgorithms.sorted) (AStar.new 9 : AStar ℚ) [.setHeuristic (some fun _ _ _ _ => 0),
      .setGetCost (some fun _ _ _ _ => 1), .findPath square 0 0 1 0 ()]).map fun r => r.2) =
        some [none, none, some true] := by decide +kernel
  obtain ⟨⟨a, out⟩, hrun, hout⟩ := Option.map_eq_some_iff.mp hfirst
  have hsecond : ((runOps (step HeapAlgorithms.sorted) (AStar.new 9 : AStar ℚ) [.setHeuristic (some fun _ _ _ _ => 0),
      .setGetCost (some fun _ _ _ _ => 1), .findPath square 0 0 1 0 ()]).bind
      fun r => (r.1.findPath HeapAlgorithms.sorted ledge 1 0 3 1 ()).map fun r => (r.2, r.1.path)) =
        some (true, [(2, 0)]) := by decide +kernel
  rw [hrun] at hsecond
  obtain ⟨⟨a', found⟩, hfind, hresult⟩ := Option.map_eq_some_iff.mp hsecond
  obtain ⟨rfl, hpath⟩ := Prod.mk.inj hresult
  simp only at hout
  refine ⟨a, a', hout ▸ hrun, by decide, by decide, hfind, fun hleast => ?_⟩
  obtain ⟨p, hp, hcost⟩ := hleast.1
  rw [hpath] at hcost
  match p, hp with
  | [], hp => exact absurd (show ((1 : Int), (0 : Int)) = (3, 1) from hp) (by decide)
  | [c], hp =>
    obtain ⟨hstep, rfl⟩ := hp
    exact absurd hstep (by decide)
  | c :: d :: p, hp =>
    have hrest : 0 ≤ pathCost (stepCost fun _ _ _ _ => (1 : ℚ)) d p :=
      pathCost_nonneg (P := fun _ => True) (fun u v _ _ => ⟨trivial, zero_le_one⟩) trivial hp.2.2
    simp only [pathCost, stepCost] at hcost hrest
    linarith

end Ordered

end Libws.Core.AStar
