import Libws.Core.AStar

/-!
# The nodes of a search

A node that the search has not come to yet holds what an earlier search left in it.  `Shows` tells
what the search takes the nodes for, with every such node as new, and from here on only that
counts:

* `Sized`, `Numbered` — the map has a node of its own for every cell;
* `Turn`, `visit_turn` — what the body of the loops around a node can do to any state;
* `Visit`, `visit_spec` — what the body of the loops around a node of the map can do to that;
* `popOpen_eq`, `popOpen_spec` — `popOpen` pops with lazy deletion, and skips what is not `Live`.
-/

set_option autoImplicit false

namespace Libws.Core.AStar

open Libws.Heap Libws.Integer Libws.Loop

variable {U K : Type}

/-! ## Cells -/

def InMap (map : AbstractMap U) (c : Int × Int) : Prop :=
  0 ≤ c.1 ∧ c.1 < map.getWidth ∧ 0 ≤ c.2 ∧ c.2 < map.getHeight

instance (map : AbstractMap U) (c : Int × Int) : Decidable (InMap map c) :=
  inferInstanceAs (Decidable (0 ≤ c.1 ∧ c.1 < map.getWidth ∧ 0 ≤ c.2 ∧ c.2 < map.getHeight))

/-- The 8 cells around a cell. -/
def Neighbour (b c : Int × Int) : Prop := b ≠ c ∧ (c.1 - b.1).natAbs ≤ 1 ∧ (c.2 - b.2).natAbs ≤ 1

instance (b c : Int × Int) : Decidable (Neighbour b c) :=
  inferInstanceAs (Decidable (b ≠ c ∧ (c.1 - b.1).natAbs ≤ 1 ∧ (c.2 - b.2).natAbs ≤ 1))

/-- A step to a neighbour in the map that is not blocked. -/
def Step (map : AbstractMap U) (userdata : U) (b c : Int × Int) : Prop :=
  Neighbour b c ∧ InMap map c ∧ map.isBlock c.1 c.2 userdata = false

instance (map : AbstractMap U) (userdata : U) (b c : Int × Int) : Decidable (Step map userdata b c) :=
  inferInstanceAs (Decidable (Neighbour b c ∧ InMap map c ∧ map.isBlock c.1 c.2 userdata = false))

/-- The cell of a node of the map. -/
def cell (map : AbstractMap U) (node : Nat) : Int × Int :=
  ((node % map.getWidth : Nat), (node / map.getWidth : Nat))

theorem represents_int {n : Int} : int.Represents n ↔ -2 ^ 31 ≤ n ∧ n < 2 ^ 31 := Iff.rfl

/-- The number of the cells, and one more, is an `int`. -/
def Sized (map : AbstractMap U) : Prop := map.getWidth * map.getHeight < 2 ^ 31 - 1

instance (map : AbstractMap U) : Decidable (Sized map) :=
  inferInstanceAs (Decidable (map.getWidth * map.getHeight < 2 ^ 31 - 1))

/-- Each cell has an index of its own in `int`, and so have the bounds of the loops around it. -/
def Numbered (map : AbstractMap U) : Prop :=
  Sized map ∨ map.getWidth * map.getHeight = 2 ^ 31 ∧ 1 < map.getWidth ∧ 1 < map.getHeight

instance (map : AbstractMap U) : Decidable (Numbered map) :=
  inferInstanceAs (Decidable (Sized map ∨
    map.getWidth * map.getHeight = 2 ^ 31 ∧ 1 < map.getWidth ∧ 1 < map.getHeight))

theorem Sized.numbered {map : AbstractMap U} (h : Sized map) : Numbered map := Or.inl h

theorem Numbered.cells_le {map : AbstractMap U} (h : Numbered map) : map.getWidth * map.getHeight ≤ 2 ^ 31 := by
  rcases h with hsized | ⟨hcells, -⟩
  · unfold Sized at hsized
    omega
  · exact hcells.le

theorem Numbered.width_lt {map : AbstractMap U} (h : Numbered map) {c : Int × Int} (hc : InMap map c) :
    map.getWidth < 2 ^ 31 - 1 ∧ map.getHeight < 2 ^ 31 - 1 := by
  obtain ⟨hx, hx', hy, hy'⟩ := hc
  rcases h with hsized | ⟨hcells, hwidth, hheight⟩
  · have hwidth := Nat.le_mul_of_pos_right map.getWidth (show 0 < map.getHeight by omega)
    have hheight := Nat.le_mul_of_pos_left map.getHeight (show 0 < map.getWidth by omega)
    exact ⟨Nat.lt_of_le_of_lt hwidth hsized, Nat.lt_of_le_of_lt hheight hsized⟩
  · have htwice := Nat.mul_le_mul_left map.getWidth hheight
    have htwice' := Nat.mul_le_mul_right map.getHeight hwidth
    omega

/-- The width that `getNode` is given. -/
theorem Numbered.width_eq {map : AbstractMap U} (h : Numbered map) {c : Int × Int} (hc : InMap map c) :
    int.cast map.getWidth = map.getWidth := by
  have hwidth := (h.width_lt hc).1
  exact cast_eq_self (represents_int.mpr (by omega))

/-- The number of the cells, computed in `int`. -/
theorem Numbered.cells_eq {map : AbstractMap U} (h : Numbered map) :
    int.cast map.getWidth * int.cast map.getHeight = (map.getWidth * map.getHeight : Nat) := by
  by_cases hwidth : map.getWidth = 0
  · rw [hwidth, Nat.zero_mul]
    exact Int.zero_mul _
  by_cases hheight : map.getHeight = 0
  · rw [hheight, Nat.mul_zero]
    exact Int.mul_zero _
  have hcell : InMap map (0, 0) := ⟨le_refl _, by simp only; omega, le_refl _, by simp only; omega⟩
  have hlt := (h.width_lt hcell).2
  rw [h.width_eq hcell, cast_eq_self (represents_int.mpr (by omega)), Int.natCast_mul]

/-- The node of a cell of the map. -/
def index (map : AbstractMap U) (c : Int × Int) : Nat := (c.2 * int.cast map.getWidth + c.1).toNat

theorem InMap.exists_nat {map : AbstractMap U} {c : Int × Int} (h : InMap map c) (hnumbered : Numbered map) :
    ∃ x y : Nat, c = (↑x, ↑y) ∧ x < map.getWidth ∧ y < map.getHeight ∧ index map c = y * map.getWidth + x := by
  have hwidth := hnumbered.width_eq h
  obtain ⟨hx, hx', hy, hy'⟩ := h
  refine ⟨c.1.toNat, c.2.toNat, by rw [Int.toNat_of_nonneg hx, Int.toNat_of_nonneg hy], by omega, by omega, ?_⟩
  have hindex : c.2 * map.getWidth + c.1 = ((c.2.toNat * map.getWidth + c.1.toNat : Nat) : Int) := by
    rw [Int.natCast_add, Int.natCast_mul, Int.toNat_of_nonneg hx, Int.toNat_of_nonneg hy]
  rw [index, hwidth, hindex, Int.toNat_natCast]

theorem index_lt {map : AbstractMap U} (hnumbered : Numbered map) {c : Int × Int} (h : InMap map c) :
    index map c < map.getWidth * map.getHeight := by
  obtain ⟨x, y, -, hx, hy, hindex⟩ := h.exists_nat hnumbered
  have hrow : (y + 1) * map.getWidth ≤ map.getHeight * map.getWidth := Nat.mul_le_mul_right _ hy
  rw [hindex, Nat.mul_comm map.getWidth map.getHeight]
  rw [Nat.add_mul, Nat.one_mul] at hrow
  omega

theorem cell_index {map : AbstractMap U} (hnumbered : Numbered map) {c : Int × Int} (h : InMap map c) :
    cell map (index map c) = c := by
  obtain ⟨x, y, rfl, hx, -, hindex⟩ := h.exists_nat hnumbered
  rw [cell, hindex, Nat.mul_comm y, Nat.mul_add_mod, Nat.mod_eq_of_lt hx, Nat.mul_add_div (by omega),
    Nat.div_eq_of_lt hx, Nat.add_zero]

theorem inMap_cell {map : AbstractMap U} {v : Nat} (h : v < map.getWidth * map.getHeight) :
    InMap map (cell map v) := by
  have hw : 0 < map.getWidth := Nat.pos_of_ne_zero fun h0 => by simp [h0] at h
  have hx := Nat.mod_lt v hw
  have hy : v / map.getWidth < map.getHeight := Nat.div_lt_of_lt_mul h
  exact ⟨Int.natCast_nonneg _, Int.ofNat_lt.mpr hx, Int.natCast_nonneg _, Int.ofNat_lt.mpr hy⟩

theorem index_cell {map : AbstractMap U} (hnumbered : Numbered map) {v : Nat} (h : v < map.getWidth * map.getHeight) :
    index map (cell map v) = v := by
  obtain ⟨x, y, hcell, -, -, hindex⟩ := (inMap_cell h).exists_nat hnumbered
  obtain ⟨rfl, rfl⟩ : v % map.getWidth = x ∧ v / map.getWidth = y := by
    simpa only [cell, Prod.mk.injEq, Int.natCast_inj] using hcell
  rw [hindex, Nat.mul_comm]
  exact Nat.div_add_mod v map.getWidth

theorem cell_inj {map : AbstractMap U} {u v : Nat} (heq : cell map u = cell map v) : u = v := by
  obtain ⟨hmod, hdiv⟩ := Prod.mk.inj heq
  rw [← Nat.div_add_mod u map.getWidth, Int.ofNat_inj.mp hmod, Int.ofNat_inj.mp hdiv, Nat.div_add_mod]

/-- The loops around the coordinates stay in `int`. -/
def LoopsFit (c : Int × Int) : Prop :=
  int.Represents (c.1 - 1) ∧ int.Represents (c.1 + 2) ∧ int.Represents (c.2 - 1) ∧ int.Represents (c.2 + 2)

instance (c : Int × Int) : Decidable (LoopsFit c) :=
  inferInstanceAs (Decidable (int.Represents (c.1 - 1) ∧ int.Represents (c.1 + 2) ∧ int.Represents (c.2 - 1) ∧
    int.Represents (c.2 + 2)))

theorem InMap.loopsFit {map : AbstractMap U} {c : Int × Int} (h : InMap map c)
    (hnumbered : Numbered map) : LoopsFit c := by
  obtain ⟨hwidth, hheight⟩ := hnumbered.width_lt h
  obtain ⟨hx, hx', hy, hy'⟩ := h
  simp only [LoopsFit, represents_int]
  omega

/-- The cells that the two loops around a node at `x`, `y` go through, in their order. -/
def around (x y : Int) : List (Int × Int) :=
  [x - 1, x, x + 1].flatMap fun x => [y - 1, y, y + 1].map fun y => (x, y)

/-- The loops around a cell go through the cell and its neighbours. -/
theorem mem_around {b c : Int × Int} : c ∈ around b.1 b.2 ↔ b = c ∨ Neighbour b c := by
  have hmem : c ∈ around b.1 b.2 ↔ (c.1 - b.1).natAbs ≤ 1 ∧ (c.2 - b.2).natAbs ≤ 1 := by
    simp only [around, List.mem_flatMap, List.mem_map, List.mem_cons, List.not_mem_nil, or_false, Prod.ext_iff]
    constructor
    · rintro ⟨x, hx, y, hy, rfl, rfl⟩
      omega
    · rintro ⟨hx, hy⟩
      exact ⟨c.1, by omega, c.2, by omega, rfl, rfl⟩
  rw [hmem, Neighbour]
  constructor
  · rintro h
    by_cases heq : b = c
    · exact Or.inl heq
    · exact Or.inr ⟨heq, h⟩
  · rintro (rfl | h)
    · simp
    · exact h.2

theorem exists_beside {n : Nat} (hn : 1 < n) {x : Int} (hx : 0 ≤ x ∧ x < n) :
    ∃ x', x' ≠ x ∧ (x - x').natAbs ≤ 1 ∧ 0 ≤ x' ∧ x' < n := by
  by_cases hleft : x = 0
  · exact ⟨x + 1, by omega, by omega, by omega, by omega⟩
  · exact ⟨x - 1, by omega, by omega, by omega, by omega⟩

/-- In a map of two rows and two columns, a cell has a neighbour with another node than `v`. -/
theorem exists_neighbour {map : AbstractMap U} (hnumbered : Numbered map) (hwidth : 1 < map.getWidth)
    (hheight : 1 < map.getHeight) {c : Int × Int} (hc : InMap map c) (v : Nat) :
    ∃ b, InMap map b ∧ Neighbour b c ∧ index map b ≠ v := by
  obtain ⟨hx, hx', hy, hy'⟩ := hc
  obtain ⟨x, hxne, hxnear, hx₀, hxw⟩ := exists_beside hwidth ⟨hx, hx'⟩
  obtain ⟨y, hyne, hynear, hy₀, hyh⟩ := exists_beside hheight ⟨hy, hy'⟩
  have hrow : InMap map (x, c.2) := ⟨hx₀, hxw, hy, hy'⟩
  have hcolumn : InMap map (c.1, y) := ⟨hx, hx', hy₀, hyh⟩
  by_cases hv : index map (x, c.2) = v
  · refine ⟨(c.1, y), hcolumn, ⟨fun heq => hyne (congrArg Prod.snd heq), by simp, hynear⟩, fun hv' => hxne ?_⟩
    have hsame := cell_index hnumbered hrow
    rw [hv, ← hv', cell_index hnumbered hcolumn] at hsame
    exact (congrArg Prod.fst hsame).symm
  · exact ⟨(x, c.2), hrow, ⟨fun heq => hxne (congrArg Prod.fst heq), hxnear, by simp⟩, hv⟩

/-! ## One visit -/

/-- Where a node is. -/
def place (a : AStar K) (node : Nat) : Int × Int := ((a.nodes node).x, (a.nodes node).y)

/-- What `getNode` writes to the node of a cell. -/
def touch [Zero K] (map : AbstractMap U) (a : AStar K) (c : Int × Int) : PathNode K :=
  if (a.nodes (index map c)).generation ≠ a.searchGeneration then
    ⟨c.1, c.2, 0, 0, 0, false, a.searchGeneration, none⟩
  else { a.nodes (index map c) with x := c.1, y := c.2 }

/-- The state after `getNode` of a cell of the map. -/
def arrive [Zero K] (map : AbstractMap U) (a : AStar K) (c : Int × Int) : AStar K :=
  a.setNode (index map c) (touch map a c)

@[simp] theorem arrive_node [Zero K] (map : AbstractMap U) (a : AStar K) (c : Int × Int) :
    (arrive map a c).nodes (index map c) = touch map a c := Function.update_self ..

theorem arrive_other [Zero K] (map : AbstractMap U) (a : AStar K) (c : Int × Int) {v : Nat} (hv : v ≠ index map c) :
    (arrive map a c).nodes v = a.nodes v := Function.update_of_ne hv ..

theorem touch_generation [Zero K] (map : AbstractMap U) (a : AStar K) (c : Int × Int) :
    (touch map a c).generation = a.searchGeneration := by
  unfold touch
  split
  · rfl
  · rename_i hown
    exact not_not.mp hown

theorem arrive_place [Zero K] (map : AbstractMap U) (a : AStar K) (c : Int × Int) :
    place (arrive map a c) (index map c) = c := by
  rw [place, arrive_node, touch]
  split <;> rfl

/-- `getNode` makes its node one of this search, and leaves the others. -/
theorem arrive_own [Zero K] (map : AbstractMap U) (a : AStar K) (c : Int × Int) (v : Nat) :
    ((arrive map a c).nodes v).generation = (arrive map a c).searchGeneration ↔
      v = index map c ∨ (a.nodes v).generation = a.searchGeneration := by
  by_cases hv : v = index map c
  · subst hv
    rw [arrive_node, touch_generation]
    exact ⟨fun _ => Or.inl rfl, fun _ => rfl⟩
  · rw [arrive_other map a c hv]
    exact ⟨Or.inr, fun h => h.resolve_left hv⟩

/-- The row and the column of an address. -/
theorem row_col (v : Nat) : v >>> 10 * NUM_NODE_SIZE + (v - (v >>> 10) <<< 10) = v := by
  rw [Nat.shiftRight_eq_div_pow, Nat.shiftLeft_eq, NUM_NODE_SIZE]
  omega

/-- The index of the coordinates can be computed. -/
def Indexed (map : AbstractMap U) (c : Int × Int) : Prop :=
  int.Represents (c.2 * int.cast map.getWidth) ∧ int.Represents (c.2 * int.cast map.getWidth + c.1)

instance (map : AbstractMap U) (c : Int × Int) : Decidable (Indexed map c) :=
  inferInstanceAs (Decidable (int.Represents (c.2 * int.cast map.getWidth) ∧
    int.Represents (c.2 * int.cast map.getWidth + c.1)))

/-- There is a node for the coordinates, in the map or not. -/
def Allocated (map : AbstractMap U) (a : AStar K) (c : Int × Int) : Prop :=
  0 ≤ c.2 * int.cast map.getWidth + c.1 ∧ index map c < a.mapNodes * NUM_NODE_SIZE

instance (map : AbstractMap U) (a : AStar K) (c : Int × Int) : Decidable (Allocated map a c) :=
  inferInstanceAs (Decidable (0 ≤ c.2 * int.cast map.getWidth + c.1 ∧ index map c < a.mapNodes * NUM_NODE_SIZE))

theorem allocated_congr {map : AbstractMap U} {a a' : AStar K} (h : a.mapNodes = a'.mapNodes) (c : Int × Int) :
    Allocated map a c ↔ Allocated map a' c := by rw [Allocated, Allocated, h]

theorem getNode_eq [Zero K] (map : AbstractMap U) (a : AStar K) (c : Int × Int) :
    a.getNode c.1 c.2 (int.cast map.getWidth) =
      if Indexed map c then
        some (if Allocated map a c then (arrive map a c, some (index map c)) else (a, none))
      else none := by
  have hrow : index map c >>> 10 < a.mapNodes ↔ index map c < a.mapNodes * NUM_NODE_SIZE := by
    rw [Nat.shiftRight_eq_div_pow, NUM_NODE_SIZE]
    omega
  unfold getNode
  simp only
  by_cases hindexed : Indexed map c
  swap
  · rw [if_neg hindexed]
    exact if_neg hindexed
  rw [if_pos hindexed, if_pos (And.intro hindexed.1 hindexed.2)]
  by_cases hneg : c.2 * int.cast map.getWidth + c.1 < 0
  · rw [if_pos hneg, if_neg fun h => absurd h.1 (Int.not_le.mpr hneg)]
  rw [if_neg hneg, ← index, row_col]
  by_cases hlt : index map c >>> 10 < a.mapNodes
  · have halloc : Allocated map a c := ⟨Int.not_lt.mp hneg, hrow.mp hlt⟩
    rw [if_pos hlt, if_pos halloc, arrive, touch]
    split <;> rfl
  · rw [if_neg hlt, if_neg fun h => hlt (hrow.mpr h.2)]

/-- The nodes for a map. -/
structure Room (map : AbstractMap U) (mapNodes : Nat) : Prop where
  numbered : Numbered map
  rows : map.getWidth * map.getHeight ≤ mapNodes * NUM_NODE_SIZE

theorem InMap.indexed {map : AbstractMap U} {c : Int × Int} (hc : InMap map c) (hnumbered : Numbered map) :
    Indexed map c := by
  have hlt := index_lt hnumbered hc
  obtain ⟨x, y, rfl, -, -, hindex⟩ := hc.exists_nat hnumbered
  rw [hindex] at hlt
  have hbound := Nat.lt_of_lt_of_le hlt hnumbered.cells_le
  simp only [Indexed, hnumbered.width_eq hc, represents_int]
  rw [← Int.natCast_mul]
  omega

theorem InMap.allocated {map : AbstractMap U} {a : AStar K} {c : Int × Int} (hc : InMap map c)
    (hroom : Room map a.mapNodes) : Allocated map a c := by
  refine ⟨?_, Nat.lt_of_lt_of_le (index_lt hroom.numbered hc) hroom.rows⟩
  rw [hroom.numbered.width_eq hc]
  obtain ⟨x, y, rfl, -⟩ := hc.exists_nat hroom.numbered
  exact Int.add_nonneg (Int.mul_nonneg (Int.natCast_nonneg _) (Int.natCast_nonneg _)) (Int.natCast_nonneg _)

theorem getNode_touch [Zero K] {map : AbstractMap U} {a : AStar K} {c : Int × Int} (hindexed : Indexed map c)
    (halloc : Allocated map a c) :
    a.getNode c.1 c.2 (int.cast map.getWidth) = some (arrive map a c, some (index map c)) := by
  rw [getNode_eq, if_pos hindexed, if_pos halloc]

@[simp] theorem reach_node [LT K] [DecidableLT K] [Add K] (std : HeapAlgorithms) (a : AStar K)
  (v current : Nat) (h g : K) :
    (a.reach std v current h g).nodes v = { a.nodes v with h := h, g := g, f := g + h, parent := some current } :=
  Function.update_self ..

theorem reach_other [LT K] [DecidableLT K] [Add K] (std : HeapAlgorithms) (a : AStar K) (v current : Nat) (h g : K)
    {w : Nat} (hw : w ≠ v) : (a.reach std v current h g).nodes w = a.nodes w := Function.update_of_ne hw ..

/-- To be reached changes neither where a node is nor whether it is of this search or closed. -/
theorem reach_same [LT K] [DecidableLT K] [Add K] (std : HeapAlgorithms) (a : AStar K) (v current : Nat) (h g : K)
    (w : Nat) : place (a.reach std v current h g) w = place a w ∧
      ((a.reach std v current h g).nodes w).generation = (a.nodes w).generation ∧
      ((a.reach std v current h g).nodes w).isClosed = (a.nodes w).isClosed := by
  by_cases hw : w = v
  · subst hw
    simp only [place, reach_node, and_self]
  · simp only [place, reach_other std a v current h g hw, and_self]

theorem mem_reach_heap [LT K] [DecidableLT K] [Add K] (std : HeapAlgorithms) (a : AStar K)
    (v current : Nat) (h g : K) (item : HeapItem K) :
    item ∈ (a.reach std v current h g).openHeap ↔ item ∈ a.openHeap ∨ item = ⟨g + h, v⟩ := by
  have hperm := (std.pushHeap_perm HeapItem.comp (a.openHeap ++ [⟨g + h, v⟩])).mem_iff (a := item)
  rw [List.mem_append, List.mem_singleton] at hperm
  simp only [reach, pushOpen, setNode, Function.update_self]
  exact hperm

/-- A cell that `visit` does not skip, around a node at `b`. -/
def Enters (map : AbstractMap U) (userdata : U) (b c : Int × Int) : Prop :=
  b ≠ c ∧ InMap map c ∧ map.isBlock c.1 c.2 userdata = false

instance (map : AbstractMap U) (userdata : U) (b c : Int × Int) : Decidable (Enters map userdata b c) :=
  inferInstanceAs (Decidable (b ≠ c ∧ InMap map c ∧ map.isBlock c.1 c.2 userdata = false))

theorem step_iff {map : AbstractMap U} {userdata : U} {b c : Int × Int} :
    Step map userdata b c ↔ Enters map userdata b c ∧ (c.1 - b.1).natAbs ≤ 1 ∧ (c.2 - b.2).natAbs ≤ 1 := by
  constructor
  · rintro ⟨⟨hne, hnear⟩, hin, hfree⟩
    exact ⟨⟨hne, hin, hfree⟩, hnear⟩
  · rintro ⟨⟨hne, hin, hfree⟩, hnear⟩
    exact ⟨⟨hne, hnear⟩, hin, hfree⟩

/-! ## What the search takes the nodes for -/

/-- The node that `getNode` gives for the cell of an address, if it is not of this search. -/
def freshNode [Zero K] (map : AbstractMap U) (searchGeneration node : Nat) : PathNode K :=
  ⟨(cell map node).1, (cell map node).2, 0, 0, 0, false, searchGeneration, none⟩

/-- The search takes the nodes for `nodes`. -/
structure Shows [Zero K] (map : AbstractMap U) (a : AStar K) (nodes : Nat → PathNode K) : Prop where
  room : Room map a.mapNodes
  nodes_eq : ∀ v, nodes v =
    if (a.nodes v).generation = a.searchGeneration then a.nodes v else freshNode map a.searchGeneration v
  at_cell : ∀ v, ((nodes v).x, (nodes v).y) = cell map v
  items : ∀ item ∈ a.openHeap, (a.nodes item.node).generation = a.searchGeneration
  lastPath : a.lastPath = []

theorem Shows.current [Zero K] {map : AbstractMap U} {a : AStar K} {nodes : Nat → PathNode K}
    (h : Shows map a nodes) {v : Nat} (hv : (a.nodes v).generation = a.searchGeneration) : a.nodes v = nodes v := by
  rw [h.nodes_eq, if_pos hv]

theorem Shows.cell_eq [Zero K] {map : AbstractMap U} {a : AStar K} {nodes : Nat → PathNode K}
    (h : Shows map a nodes) {v : Nat} (hv : (a.nodes v).generation = a.searchGeneration) :
    (a.nodes v).x = (cell map v).1 ∧ (a.nodes v).y = (cell map v).2 := by
  rw [h.current hv]
  exact Prod.mk.inj (h.at_cell v)

theorem Shows.generation [Zero K] {map : AbstractMap U} {a : AStar K} {nodes : Nat → PathNode K}
    (h : Shows map a nodes) (v : Nat) : (nodes v).generation = a.searchGeneration := by
  rw [h.nodes_eq]
  split
  · assumption
  · rfl

/-- To write to a node is to change what the search takes it for. -/
theorem Shows.setNode [Zero K] {map : AbstractMap U} {a : AStar K} {nodes : Nat → PathNode K}
    (h : Shows map a nodes) (v : Nat) (value : PathNode K) (hgeneration : value.generation = a.searchGeneration)
    (hcell : (value.x, value.y) = cell map v) :
    Shows map (a.setNode v value) (Function.update nodes v value) := by
  refine ⟨h.room, fun u => ?_, fun u => ?_, fun item hitem => ?_, h.lastPath⟩
  · by_cases hu : u = v
    · subst hu
      simp only [AStar.setNode, Function.update_self, hgeneration, if_true]
    · simp only [AStar.setNode, Function.update_of_ne hu]
      exact h.nodes_eq u
  · by_cases hu : u = v
    · subst hu
      rw [Function.update_self]
      exact hcell
    · rw [Function.update_of_ne hu]
      exact h.at_cell u
  · by_cases hu : item.node = v
    · simp only [AStar.setNode, hu, Function.update_self]
      exact hgeneration
    · simp only [AStar.setNode, Function.update_of_ne hu]
      exact h.items item hitem

/-- The cell of a node of this search is written to it again. -/
theorem Shows.touch [Zero K] {map : AbstractMap U} {a : AStar K} {nodes : Nat → PathNode K}
    (h : Shows map a nodes) {c : Int × Int} (hc : InMap map c) : touch map a c = nodes (index map c) := by
  have hcell : cell map (index map c) = c := cell_index h.room.numbered hc
  have hat := h.at_cell (index map c)
  rw [hcell] at hat
  unfold AStar.touch
  rw [h.nodes_eq (index map c)] at hat ⊢
  split
  · rename_i hold
    rw [freshNode, hcell]
  · rename_i hold
    rw [not_not] at hold
    rw [if_pos hold] at hat ⊢
    obtain ⟨hx, hy⟩ := Prod.mk.inj hat
    rw [← hx, ← hy]

/-- `getNode` of a cell of the map changes nothing of what the search takes the nodes for. -/
theorem Shows.touched [Zero K] {map : AbstractMap U} {a : AStar K} {nodes : Nat → PathNode K}
    (h : Shows map a nodes) {c : Int × Int} (hc : InMap map c) :
    Shows map (arrive map a c) nodes := by
  have hset := h.setNode _ _ (h.generation (index map c)) (h.at_cell (index map c))
  rw [Function.update_eq_self] at hset
  rw [arrive, h.touch hc]
  exact hset

/-- The nodes of this search stay so. -/
def Grows (a a' : AStar K) : Prop :=
  ∀ v, (a.nodes v).generation = a.searchGeneration → (a'.nodes v).generation = a'.searchGeneration

theorem setNode_grows (a : AStar K) (v : Nat) (value : PathNode K) (h : value.generation = a.searchGeneration) :
    Grows a (a.setNode v value) := by
  intro u hu
  by_cases huv : u = v
  · subst huv
    simp only [AStar.setNode, Function.update_self]
    exact h
  · simp only [AStar.setNode, Function.update_of_ne huv]
    exact hu

/-! ## The loops around a cell -/

/-- What a search goes by, with the nodes of its two ends. -/
structure Query (U K : Type) where
  std : HeapAlgorithms
  map : AbstractMap U
  userdata : U
  heuristic : Int → Int → Int → Int → K
  getCost : Int → Int → Int → Int → K
  start : Nat
  end_ : Nat

namespace Query

/-- A step between two nodes of the map. -/
def Step (q : Query U K) (u v : Nat) : Prop :=
  v < q.map.getWidth * q.map.getHeight ∧ AStar.Step q.map q.userdata (cell q.map u) (cell q.map v)

def cost (q : Query U K) (u v : Nat) : K :=
  q.getCost (cell q.map u).1 (cell q.map u).2 (cell q.map v).1 (cell q.map v).2

/-- The heuristic of a node. -/
def estimate (q : Query U K) (v : Nat) : K :=
  q.heuristic (cell q.map v).1 (cell q.map v).2 (cell q.map q.end_).1 (cell q.map q.end_).2

end Query

variable [Zero K] [Add K] [LT K] [DecidableLT K] [BEq K]

/-- What the search takes a node for after `reach`. -/
def reached (nodes : Nat → PathNode K) (v current : Nat) (h g : K) : Nat → PathNode K :=
  Function.update nodes v { nodes v with h := h, g := g, f := g + h, parent := some current }

/-- What the body of the loops around `current` can do at the cell `c`. -/
inductive Visit (q : Query U K) (current : Nat) (nodes : Nat → PathNode K) (heap : List (HeapItem K))
    (c : Int × Int) : (Nat → PathNode K) → List (HeapItem K) → Prop where
  /-- outside the map, `current` itself, or blocked -/
  | outside (hstep : ¬ Step q.map q.userdata (cell q.map current) c) : Visit q current nodes heap c nodes heap
  | closed (v : Nat) (hcell : cell q.map v = c) (hstep : q.Step current v) (hclosed : (nodes v).isClosed = true) :
    Visit q current nodes heap c nodes heap
  | keep (v : Nat) (hcell : cell q.map v = c) (hstep : q.Step current v) (hopen : (nodes v).isClosed = false)
      (hseen : ((nodes v).g == 0) = false) (hge : ¬ (nodes current).g + q.cost current v < (nodes v).g) :
    Visit q current nodes heap c nodes heap
  | reach (v : Nat) (h : K) (hcell : cell q.map v = c) (hstep : q.Step current v)
      (hopen : (nodes v).isClosed = false)
      (hcase : ((nodes v).g == 0) = false ∧ (nodes current).g + q.cost current v < (nodes v).g ∧ h = (nodes v).h ∨
        ((nodes v).g == 0) = true ∧ h = q.estimate v) :
    Visit q current nodes heap c (reached nodes v current h ((nodes current).g + q.cost current v))
      (q.std.pushHeap HeapItem.comp (heap ++ [⟨(nodes current).g + q.cost current v + h, v⟩]))

omit [Add K] [BEq K] in
/-- To push a node of this search changes nothing of the nodes. -/
theorem Shows.pushOpen {std : HeapAlgorithms} {map : AbstractMap U} {a : AStar K} {nodes : Nat → PathNode K}
    (h : Shows map a nodes) {v : Nat} (hv : (a.nodes v).generation = a.searchGeneration) :
    Shows map (a.pushOpen std v) nodes := by
  refine ⟨h.room, h.nodes_eq, h.at_cell, fun item hitem => ?_, h.lastPath⟩
  have hmem : item ∈ a.openHeap ++ [⟨(a.nodes v).f, v⟩] := (std.pushHeap_perm _ _).mem_iff.mp hitem
  rcases List.mem_append.mp hmem with hmem | hmem
  · exact h.items item hmem
  · rw [List.mem_singleton.mp hmem]
    exact hv

omit [BEq K] in
theorem reach_spec (std : HeapAlgorithms) {map : AbstractMap U} {a : AStar K} {nodes : Nat → PathNode K}
    (h : Shows map a nodes) {v : Nat} (hv : (a.nodes v).generation = a.searchGeneration)
    (current : Nat) (hv' g : K) :
    Shows map (a.reach std v current hv' g) (reached nodes v current hv' g) ∧
      (a.reach std v current hv' g).openHeap = std.pushHeap HeapItem.comp (a.openHeap ++ [⟨g + hv', v⟩]) ∧
      Grows a (a.reach std v current hv' g) := by
  have hset := h.setNode v { a.nodes v with h := hv', g := g, f := g + hv', parent := some current } hv
    (by rw [h.current hv]; exact h.at_cell v)
  have hgrows := setNode_grows a v { a.nodes v with h := hv', g := g, f := g + hv', parent := some current } hv
  refine ⟨?_, ?_, hgrows⟩
  · rw [reached, ← h.current hv]
    exact hset.pushOpen (hgrows v hv)
  · simp only [AStar.reach, AStar.pushOpen, AStar.setNode, Function.update_self]

/-- The cost of the cell `c` over a node. -/
def costOver (q : Query U K) (a : AStar K) (node : Nat) (c : Int × Int) : K :=
  (a.nodes node).g + q.getCost (place a node).1 (place a node).2 c.1 c.2

/-- What the body of the loops around `current` can do at the cell `c`, to any state. -/
inductive Turn (q : Query U K) (current : Nat) (a : AStar K) (c : Int × Int) : AStar K → Prop where
  | skip (hskip : ¬ Enters q.map q.userdata (place a current) c) : Turn q current a c a
  | closed (henters : Enters q.map q.userdata (place a current) c) (hclosed : (touch q.map a c).isClosed = true) :
    Turn q current a c (arrive q.map a c)
  | keep (henters : Enters q.map q.userdata (place a current) c) (hopen : (touch q.map a c).isClosed = false)
      (hseen : ((touch q.map a c).g == 0) = false)
      (hge : ¬ costOver q (arrive q.map a c) current c < (touch q.map a c).g) :
    Turn q current a c (arrive q.map a c)
  | reach (h : K) (henters : Enters q.map q.userdata (place a current) c)
    (hopen : (touch q.map a c).isClosed = false)
      (hcase : ((touch q.map a c).g == 0) = false ∧
          costOver q (arrive q.map a c) current c < (touch q.map a c).g ∧ h = (touch q.map a c).h ∨
        ((touch q.map a c).g == 0) = true ∧ h = q.heuristic c.1 c.2 (place (arrive q.map a c) q.end_).1
          (place (arrive q.map a c) q.end_).2) :
    Turn q current a c ((arrive q.map a c).reach q.std (index q.map c) current h (costOver q (arrive q.map a c) current c))

theorem turn_count {q : Query U K} {current : Nat} {a a' : AStar K} {c : Int × Int} (h : Turn q current a c a') :
    a'.count = a.count := by
  cases h with
  | skip | closed | keep | reach => rfl

/-- **The body of the loops.** -/
theorem visit_turn (q : Query U K) {a : AStar K} (current : Nat) (c : Int × Int)
    (hgiven : Enters q.map q.userdata (place a current) c → Indexed q.map c ∧ Allocated q.map a c) :
    ∃ a', visit q.std q.map q.userdata q.heuristic q.getCost current q.end_ a c = some a' ∧
      Turn q current a c a' := by
  have hskip : ∀ h : ¬ Enters q.map q.userdata (place a current) c, ∃ a', some a = some a' ∧
    Turn q current a c a' :=
    fun h => ⟨a, rfl, .skip h⟩
  obtain ⟨x, y⟩ := c
  unfold visit
  simp only
  split
  · rename_i hout
    exact hskip fun henters => by
      obtain ⟨hx₁, hx₂, -, -⟩ := henters.2.1
      simp only at hx₁ hx₂
      omega
  rename_i hinX
  split
  · rename_i hout
    exact hskip fun henters => by
      obtain ⟨-, -, hy₁, hy₂⟩ := henters.2.1
      simp only at hy₁ hy₂
      omega
  rename_i hinY
  split
  · rename_i hself
    exact hskip fun henters => henters.1 (Prod.ext hself.1.symm hself.2.symm)
  rename_i hself
  split
  · rename_i hblock
    exact hskip fun henters => by
      rw [henters.2.2] at hblock
      cases hblock
  rename_i hfree
  have hin : InMap q.map (x, y) := by
    refine ⟨?_, ?_, ?_, ?_⟩ <;> simp only <;> omega
  have henters : Enters q.map q.userdata (place a current) (x, y) :=
    ⟨fun heq => hself ⟨(Prod.ext_iff.mp heq).1.symm, (Prod.ext_iff.mp heq).2.symm⟩, hin,
      (Bool.not_eq_true _).mp hfree⟩
  have hnode : a.getNode x y (int.cast q.map.getWidth) = some (arrive q.map a (x, y), some (index q.map (x, y))) :=
    getNode_touch (hgiven henters).1 (hgiven henters).2
  rw [hnode]
  simp only [arrive_node]
  split
  · rename_i hclosed
    exact ⟨_, rfl, .closed henters hclosed⟩
  rename_i hopen
  rw [Bool.not_eq_true] at hopen
  split
  · rename_i hseen
    rw [Bool.not_eq_true'] at hseen
    split
    · rename_i hlt
      exact ⟨_, rfl, .reach _ henters hopen (Or.inl ⟨hseen, hlt, rfl⟩)⟩
    · rename_i hge
      exact ⟨_, rfl, .keep henters hopen hseen hge⟩
  · rename_i hunseen
    rw [Bool.not_eq_true, Bool.not_eq_false'] at hunseen
    exact ⟨_, rfl, .reach _ henters hopen (Or.inr ⟨hunseen, rfl⟩)⟩

/-- Where a visit is not undefined, there is a node for the cell that it enters. -/
theorem visit_given {q : Query U K} {a a' : AStar K} {current : Nat} {c : Int × Int}
    (hvisit : visit q.std q.map q.userdata q.heuristic q.getCost current q.end_ a c = some a')
    (henters : Enters q.map q.userdata (place a current) c) : Indexed q.map c ∧ Allocated q.map a c := by
  obtain ⟨x, y⟩ := c
  have hnode := getNode_eq q.map a (x, y)
  obtain ⟨hself, ⟨hx, hx', hy, hy'⟩, hfree⟩ := henters
  simp only at hx hx' hy hy' hfree hnode
  have hother : ¬ (x = (a.nodes current).x ∧ y = (a.nodes current).y) := fun heq =>
    hself (Prod.ext heq.1.symm heq.2.symm)
  simp only [visit] at hvisit
  rw [if_neg (by omega), if_neg (by omega), if_neg hother, if_neg ((Bool.not_eq_true _).mpr hfree), hnode] at hvisit
  by_cases hindexed : Indexed q.map (x, y)
  · refine ⟨hindexed, by_contra fun hnull => ?_⟩
    rw [if_pos hindexed, if_neg hnull] at hvisit
    cases hvisit
  · rw [if_neg hindexed] at hvisit
    cases hvisit

theorem turn_of_visit {q : Query U K} {a a' : AStar K} {current : Nat} {c : Int × Int}
    (hvisit : visit q.std q.map q.userdata q.heuristic q.getCost current q.end_ a c = some a') :
    Turn q current a c a' := by
  obtain ⟨a₁, hvisit₁, hturn⟩ := visit_turn q current c (visit_given hvisit)
  rw [hvisit] at hvisit₁
  obtain rfl := Option.some.inj hvisit₁
  exact hturn

/-- **The body of the loops around a node of the map.** -/
theorem visit_spec {q : Query U K} {a : AStar K} {nodes : Nat → PathNode K} {current : Nat}
    (h : Shows q.map a nodes) (hcurrent : (a.nodes current).generation = a.searchGeneration)
    (hend : (a.nodes q.end_).generation = a.searchGeneration) {c : Int × Int}
    (hc : c ∈ around (cell q.map current).1 (cell q.map current).2) :
    ∃ a' nodes', visit q.std q.map q.userdata q.heuristic q.getCost current q.end_ a c = some a' ∧
      Shows q.map a' nodes' ∧ Visit q current nodes a.openHeap c nodes' a'.openHeap ∧ Grows a a' := by
  have hnumbered := h.room.numbered
  obtain ⟨a', hvisit, hturn⟩ := visit_turn q current c fun henters =>
    ⟨henters.2.1.indexed hnumbered, henters.2.1.allocated h.room⟩
  have hplace : place a current = cell q.map current := Prod.ext_iff.mpr (h.cell_eq hcurrent)
  have hclose := (mem_around.mp hc).resolve_left
  have hstep : Enters q.map q.userdata (place a current) c → q.Step current (index q.map c) := fun henters => by
    rw [hplace] at henters
    refine ⟨index_lt hnumbered henters.2.1, ?_⟩
    rw [cell_index hnumbered henters.2.1]
    exact ⟨hclose henters.1, henters.2⟩
  -- the nodes after `getNode`
  have hnodes : ∀ hin : InMap q.map c, Shows q.map (arrive q.map a c) nodes ∧ Grows a (arrive q.map a c) ∧
      touch q.map a c = nodes (index q.map c) ∧
      costOver q (arrive q.map a c) current c = (nodes current).g + q.cost current (index q.map c) ∧
      q.heuristic c.1 c.2 (place (arrive q.map a c) q.end_).1 (place (arrive q.map a c) q.end_).2 =
        q.estimate (index q.map c) := by
    intro hin
    have hshows := h.touched hin
    have hgrows : Grows a (arrive q.map a c) :=
      setNode_grows a _ _ (by rw [h.touch hin]; exact h.generation (index q.map c))
    have hcell : cell q.map (index q.map c) = c := cell_index hnumbered hin
    have hcur := hshows.cell_eq (hgrows current hcurrent)
    have he := hshows.cell_eq (hgrows q.end_ hend)
    refine ⟨hshows, hgrows, h.touch hin, ?_, ?_⟩
    · rw [costOver, place, hshows.current (hgrows current hcurrent), Query.cost, hcell,
        ← hshows.current (hgrows current hcurrent), hcur.1, hcur.2]
    · rw [place, Query.estimate, hcell, he.1, he.2]
  refine ⟨a', ?_⟩
  cases hturn with
  | skip hskip =>
    refine ⟨nodes, hvisit, h, .outside fun hstep => hskip ?_, fun _ hv => hv⟩
    rw [hplace]
    exact (step_iff.mp hstep).1
  | closed henters hclosed =>
    obtain ⟨hshows, hgrows, htouch, -, -⟩ := hnodes henters.2.1
    rw [htouch] at hclosed
    exact ⟨nodes, hvisit, hshows, .closed _ (cell_index hnumbered henters.2.1) (hstep henters) hclosed, hgrows⟩
  | keep henters hopen hseen hge =>
    obtain ⟨hshows, hgrows, htouch, hcost, -⟩ := hnodes henters.2.1
    rw [htouch] at hopen hseen hge
    rw [hcost] at hge
    exact ⟨nodes, hvisit, hshows, .keep _ (cell_index hnumbered henters.2.1) (hstep henters) hopen hseen hge, hgrows⟩
  | reach n henters hopen hcase =>
    obtain ⟨hshows, hgrows, htouch, hcost, hestimate⟩ := hnodes henters.2.1
    have hv : ((arrive q.map a c).nodes (index q.map c)).generation = (arrive q.map a c).searchGeneration := by
      rw [arrive_node, htouch]
      exact h.generation (index q.map c)
    rw [htouch, hestimate, hcost] at hcase
    rw [htouch] at hopen
    obtain ⟨hshows', hheap', hgrows'⟩ := reach_spec q.std hshows hv current n
      (costOver q (arrive q.map a c) current c)
    refine ⟨_, hvisit, hshows', ?_, fun u hu => hgrows' u (hgrows u hu)⟩
    rw [hheap', hcost]
    exact .reach _ _ (cell_index hnumbered henters.2.1) (hstep henters) hopen hcase

/-- The loops around a node that stays where it is go through the cells around it. -/
theorem visitColumns_eq {std : HeapAlgorithms} {map : AbstractMap U} {userdata : U}
    {heuristic getCost : Int → Int → Int → Int → K} {current end_ : Nat} {x y : Int} (hfit : LoopsFit (x, y))
    (Inv : AStar K → Prop)
    (hat : ∀ a, Inv a → (a.nodes current).x = x ∧ (a.nodes current).y = y)
    (hkeep : ∀ a a' c, c ∈ around x y → Inv a →
      visit std map userdata heuristic getCost current end_ a c = some a' → Inv a') (a : AStar K) (h : Inv a) :
    visitColumns std map userdata heuristic getCost current end_ a =
      (around x y).foldlM (visit std map userdata heuristic getCost current end_) a := by
  obtain ⟨hlow, hhigh, hlow', hhigh'⟩ := hfit
  have hcells : ∀ x' y', x' ∈ [x - 1, x, x + 1] → y' ∈ [y - 1, y, y + 1] → (x', y') ∈ around x y :=
    fun x' y' hx' hy' => List.mem_flatMap.mpr ⟨x', hx', List.mem_map.mpr ⟨y', hy', rfl⟩⟩
  have hcolumn : ∀ a x', x' ∈ [x - 1, x, x + 1] → Inv a →
      visitColumn std map userdata heuristic getCost current end_ x' a =
        ([y - 1, y, y + 1].map fun y => (x', y)).foldlM (visit std map userdata heuristic getCost current end_) a := by
    intro a x' hx' ha
    rw [visitColumn, (hat a ha).2, List.foldlM_map]
    exact forUpTo_around Inv (fun i => represents_between hlow' hhigh') (fun a ha => by rw [(hat a ha).2])
      (fun y' a a' hy' ha => hkeep a a' _ (hcells x' y' hx' hy') ha) _ a ha
  have hstay : ∀ a x' a', x' ∈ [x - 1, x, x + 1] → Inv a →
      visitColumn std map userdata heuristic getCost current end_ x' a = some a' → Inv a' := by
    intro a x' a' hx' ha hloop
    rw [hcolumn a x' hx' ha] at hloop
    refine foldlM_inv _ (fun a c a' hc ha => hkeep a a' c ?_ ha) ha hloop
    obtain ⟨y', hy', rfl⟩ := List.mem_map.mp hc
    exact hcells x' y' hx' hy'
  rw [visitColumns, (hat a h).1, forUpTo_around Inv (fun i => represents_between hlow hhigh)
    (fun a ha => by rw [(hat a ha).1])
    (fun x' a a' hx' ha => hstay a x' a' hx' ha) _ a h, around, foldlM_flatMap]
  exact foldlM_congr Inv _ (fun a x' hx' ha => ⟨hcolumn a x' hx' ha, fun a' => hstay a x' a' hx' ha⟩) a h

/-- The loops around a node of the map. -/
theorem visitColumns_spec {q : Query U K} {a : AStar K} {nodes : Nat → PathNode K} {current : Nat}
    (hin : current < q.map.getWidth * q.map.getHeight) (h : Shows q.map a nodes)
    (hcurrent : (a.nodes current).generation = a.searchGeneration)
    (hend : (a.nodes q.end_).generation = a.searchGeneration) :
    visitColumns q.std q.map q.userdata q.heuristic q.getCost current q.end_ a =
      (around (cell q.map current).1 (cell q.map current).2).foldlM
        (visit q.std q.map q.userdata q.heuristic q.getCost current q.end_) a := by
  refine visitColumns_eq ((inMap_cell hin).loopsFit h.room.numbered) (fun a => ∃ nodes, Shows q.map a nodes ∧
    (a.nodes current).generation = a.searchGeneration ∧ (a.nodes q.end_).generation = a.searchGeneration)
    ?_ ?_ a ⟨nodes, h, hcurrent, hend⟩
  · rintro a ⟨nodes, h, hcurrent, -⟩
    exact h.cell_eq hcurrent
  · rintro a a' c hc ⟨nodes, h, hcurrent, hend⟩ hvisit
    obtain ⟨a₁, nodes₁, hvisit₁, h₁, -, hgrows⟩ := visit_spec h hcurrent hend hc
    rw [hvisit] at hvisit₁
    obtain rfl := Option.some.inj hvisit₁
    exact ⟨nodes₁, h₁, hgrows current hcurrent, hgrows q.end_ hend⟩

/-! ## The open heap -/

/-- `popOpen` does not skip the item: it is of this search, its node is open, and it has the `f` of the node. -/
def upToDate (a : AStar K) (item : HeapItem K) : Bool :=
  (a.nodes item.node).generation == a.searchGeneration && !(a.nodes item.node).isClosed &&
    item.f == (a.nodes item.node).f

omit [Zero K] [Add K] [LT K] [DecidableLT K] in
theorem upToDate_iff {a : AStar K} {item : HeapItem K} : upToDate a item = true ↔
    (a.nodes item.node).generation = a.searchGeneration ∧ (a.nodes item.node).isClosed = false ∧
      (item.f == (a.nodes item.node).f) = true := by
  simp [upToDate, and_assoc]

omit [Zero K] [Add K] in
theorem popFrom_eq (std : HeapAlgorithms) : ∀ (left : Nat) (a : AStar K),
    popFrom std left a =
      ({ a with openHeap := (std.popUntil HeapItem.comp (upToDate a) left a.openHeap).1 },
        (std.popUntil HeapItem.comp (upToDate a) left a.openHeap).2.map (·.node))
  | 0, _ => rfl
  | left + 1, a => by
    rw [popFrom, HeapAlgorithms.popUntil]
    simp only
    cases (std.popHeap HeapItem.comp a.openHeap).getLast? with
    | none => rfl
    | some item =>
      have hrest := popFrom_eq std left { a with openHeap := (std.popHeap HeapItem.comp a.openHeap).dropLast }
      simp only
      by_cases hgone : (a.nodes item.node).generation ≠ a.searchGeneration ∨ (a.nodes item.node).isClosed = true
      · have hskip : ¬ upToDate a item = true := by
          rw [upToDate_iff]
          rintro ⟨hown, hopen, -⟩
          simp [hown, hopen] at hgone
        rw [if_pos hgone, if_neg hskip]
        exact hrest
      · rw [if_neg hgone]
        rw [not_or, not_not, Bool.not_eq_true] at hgone
        by_cases hf : (item.f == (a.nodes item.node).f) = true
        · rw [if_neg (by simp [hf]), if_pos (upToDate_iff.mpr ⟨hgone.1, hgone.2, hf⟩)]
          rfl
        · rw [if_pos (by simpa using hf), if_neg fun hkeep => hf (upToDate_iff.mp hkeep).2.2]
          exact hrest

omit [Zero K] [Add K] in
/-- **`popOpen`** is lazy deletion. -/
theorem popOpen_eq (std : HeapAlgorithms) (a : AStar K) :
    a.popOpen std =
      ({ a with openHeap := (std.popUntil HeapItem.comp (upToDate a) a.openHeap.length a.openHeap).1 },
        (std.popUntil HeapItem.comp (upToDate a) a.openHeap.length a.openHeap).2.map (·.node)) :=
  popFrom_eq std a.openHeap.length a

omit [Zero K] [Add K] in
theorem popOpen_count (std : HeapAlgorithms) (a : AStar K) : (a.popOpen std).1.count = a.count := by rw [popOpen_eq]

omit [Zero K] [Add K] in
theorem popOpen_cases (std : HeapAlgorithms) (a : AStar K) :
    (a.popOpen std = ({ a with openHeap := [] }, none) ∧ ∀ item ∈ a.openHeap, upToDate a item = false) ∨
      ∃ item rest, a.popOpen std = ({ a with openHeap := rest }, some item.node) ∧
        Takes HeapItem.comp (upToDate a) a.openHeap item rest := by
  rw [popOpen_eq]
  rcases std.popUntil_spec HeapItem.comp (upToDate a) a.openHeap.length a.openHeap rfl with
    ⟨hnone, hdead⟩ | ⟨item, rest, hsome, htakes⟩
  · exact .inl ⟨by rw [hnone]; rfl, hdead⟩
  · exact .inr ⟨item, rest, by rw [hsome]; rfl, htakes⟩

/-- `popOpen` does not skip the item. -/
def Live (nodes : Nat → PathNode K) (item : HeapItem K) : Prop :=
  (nodes item.node).isClosed = false ∧ (item.f == (nodes item.node).f) = true

/-- `popOpen` takes `item` from the heap and leaves `rest`. -/
structure Pops (nodes : Nat → PathNode K) (heap : List (HeapItem K)) (item : HeapItem K)
    (rest : List (HeapItem K)) :
    Prop where
  live : Live nodes item
  skips : ∃ skipped, (∀ other ∈ skipped, ¬ Live nodes other) ∧ heap.Perm (skipped ++ item :: rest)
  least : ∀ [IsStrictWeakOrder (HeapItem K) (HeapItem.comp · ·)], IsHeap HeapItem.comp heap →
    IsHeap HeapItem.comp rest ∧ ∀ other ∈ rest, HeapItem.comp item other = false

/-- What `popOpen` can do. -/
inductive PopSpec (map : AbstractMap U) (nodes : Nat → PathNode K) (a : AStar K) : AStar K × Option Nat → Prop where
  | none (a' : AStar K) (hshows : Shows map a' nodes) (hdead : ∀ item ∈ a.openHeap, ¬ Live nodes item) :
    PopSpec map nodes a (a', .none)
  | some (a' : AStar K) (item : HeapItem K) (hshows : Shows map a' nodes) (hgrows : Grows a a')
      (hpops : Pops nodes a.openHeap item a'.openHeap) : PopSpec map nodes a (a', .some item.node)

omit [Add K] [LT K] [DecidableLT K] in
theorem Shows.live_iff {map : AbstractMap U} {nodes : Nat → PathNode K} {a : AStar K} (h : Shows map a nodes)
    {item : HeapItem K} (hitem : item ∈ a.openHeap) : Live nodes item ↔ upToDate a item = true := by
  have hown := h.items item hitem
  rw [upToDate_iff, Live, ← h.current hown, and_iff_right hown]

omit [Add K] [LT K] [DecidableLT K] [BEq K] in
/-- Items taken out of the heap. -/
theorem Shows.shrink {map : AbstractMap U} {nodes : Nat → PathNode K} {a : AStar K} (h : Shows map a nodes)
    {heap : List (HeapItem K)} (hsub : ∀ item ∈ heap, item ∈ a.openHeap) :
    Shows map { a with openHeap := heap } nodes :=
  ⟨h.room, h.nodes_eq, h.at_cell, fun item hitem => h.items item (hsub item hitem), h.lastPath⟩

omit [Add K] in
/-- **`popOpen`** gives the first live item of the heap. -/
theorem popOpen_spec (std : HeapAlgorithms) {map : AbstractMap U} {nodes : Nat → PathNode K} {a : AStar K}
    (h : Shows map a nodes) : PopSpec map nodes a (a.popOpen std) := by
  rcases popOpen_cases std a with ⟨hpop, hdead⟩ | ⟨item, rest, hpop, htakes⟩
  · rw [hpop]
    refine .none _ (h.shrink nofun) fun item hitem => ?_
    rw [h.live_iff hitem, hdead item hitem]
    exact Bool.false_ne_true
  · rw [hpop]
    obtain ⟨hitem, hrest⟩ := htakes.mem
    obtain ⟨skipped, hskipped, hperm⟩ := htakes.skips
    refine .some _ item (h.shrink hrest) (fun _ hv => hv)
      ⟨(h.live_iff hitem).mpr htakes.kept, ⟨skipped, fun other hother => ?_, hperm⟩, htakes.least⟩
    rw [h.live_iff (hperm.mem_iff.mpr (List.mem_append_left _ hother)), hskipped other hother]
    exact Bool.false_ne_true

end Libws.Core.AStar
