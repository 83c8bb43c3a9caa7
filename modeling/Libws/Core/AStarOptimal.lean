import Mathlib.Algebra.Order.Ring.Rat
import Mathlib.Tactic.NormNum
import Libws.Core.AStarComplete

/-!
# `findPath` finds a cheapest path

* `Priced` — what the search knows of the costs, when they are above 0;
* `Near` — with a heuristic that is consistent with some `bound` of the costs, a node costs no more
  than a path to it with the steps at `bound`, when it is closed;
* `Optimal`, `finds_cheapest` — with a consistent heuristic this is its least cost, and so the end
  has its least cost when it is popped.
-/

set_option autoImplicit false

namespace Libws.Core.AStar

open Libws.Heap Libws.Machine Libws.Search

variable {U K : Type} [AddCommMonoid K] [LinearOrder K] [IsOrderedCancelAddMonoid K]

/-- Items with greater `f` first: the heap has the least `f` at its front. -/
instance : IsStrictWeakOrder (HeapItem K) (HeapItem.comp · ·) where
  irrefl a h := lt_irrefl a.f (of_decide_eq_true h)
  trans _ _ _ hab hbc := decide_eq_true (lt_trans (of_decide_eq_true hbc) (of_decide_eq_true hab))
  incomp_trans a b c hab hbc := by
    simp only [HeapItem.comp, decide_eq_true_eq, gt_iff_lt, not_lt] at hab hbc ⊢
    exact ⟨hab.1.trans hbc.1, hbc.2.trans hab.2⟩

/-- What the search knows of the costs. -/
structure Priced (q : Query U K) (E : Nat → Nat → Prop) (order : List Nat) (nodes : Nat → PathNode K)
    (heap : List (HeapItem K)) : Prop where
  complete : Complete q E order nodes heap
  ordered : IsHeap HeapItem.comp heap
  start : (nodes q.start).g = 0
  tight : ∀ v u, parents nodes v = some u → (nodes v).g = (nodes u).g + q.cost u v
  positive : ∀ v u, parents nodes v = some u → 0 < (nodes v).g
  estimated : ∀ v u, parents nodes v = some u → (nodes v).h = q.estimate v ∧
    (nodes v).f = (nodes v).g + q.estimate v
  relaxed : ∀ u ∈ order, ∀ v, q.Step u v → E u v → v ∉ order → (nodes v).g ≤ (nodes u).g + q.cost u v

/-- No path to a closed node costs less than the node, when its steps cost `bound`. -/
structure Near (q : Query U K) (bound : Nat → Nat → K) (E : Nat → Nat → Prop) (order : List Nat)
    (nodes : Nat → PathNode K) (heap : List (HeapItem K)) : Prop where
  priced : Priced q E order nodes heap
  best : ∀ v ∈ order, ∀ p, IsPath q.Step q.start p v → (nodes v).g ≤ pathCost bound q.start p

/-- The costs are above 0 and at most `bound`, and the heuristic is consistent with `bound`. -/
structure Within (q : Query U K) (bound : Nat → Nat → K) : Prop where
  inMap : q.start < q.map.getWidth * q.map.getHeight
  positive : ∀ u v, u < q.map.getWidth * q.map.getHeight → q.Step u v → 0 < q.cost u v
  le : ∀ u v, u < q.map.getWidth * q.map.getHeight → q.Step u v → q.cost u v ≤ bound u v
  consistent : ∀ u v w, q.Step u v → q.Step v w → q.estimate v ≤ bound v w + q.estimate w

variable {q : Query U K} {bound : Nat → Nat → K} {order : List Nat} {nodes nodes' : Nat → PathNode K}
  {heap heap' rest : List (HeapItem K)} {item : HeapItem K}

omit [IsOrderedCancelAddMonoid K] in
/-- The closed nodes are nodes of the map. -/
theorem Within.node_lt (hq : Within q bound) (hbase : Base q order nodes heap) {u : Nat} (hu : u ∈ order) :
    u < q.map.getWidth * q.map.getHeight := by
  rcases hbase.tree.found u hu with rfl | ⟨v, hv⟩
  · exact hq.inMap
  · exact (hbase.tree.closed u v hv).2.1

/-- **The node that is popped costs no more than a path to it.** -/
theorem Near.popped (hq : Within q bound) (hbase : Base q order nodes heap)
    (h : Near q bound (fun _ _ => True) order nodes heap) (hpops : Pops nodes heap item rest) :
    ∀ p, IsPath q.Step q.start p item.node → (nodes item.node).g ≤ pathCost bound q.start p := by
  have hopen := (hbase.pops hpops).1
  by_cases hempty : order = []
  · -- the first item is the start
    intro p hp
    have hfirst : item.node = q.start := by
      rcases hbase.items item hpops.mem.1 with hstart | ⟨u, hu⟩
      · exact hstart
      · have hclosed := (hbase.tree.closed item.node u hu).1
        rw [hempty] at hclosed
        cases hclosed
    rw [hfirst, h.priced.start]
    exact pathCost_nonneg (P := fun u => u < q.map.getWidth * q.map.getHeight)
      (fun u v hu hstep => ⟨hstep.1, (hq.positive u v hu hstep).le.trans (hq.le u v hu hstep)⟩) hq.inMap hp
  · have hstart := hbase.tree.first hempty
    have hestimate : ∀ v, v ∉ order → Found q.start (parents nodes) v →
        (nodes v).f = (nodes v).g + q.estimate v := fun v hv hfound => by
      rcases hfound with rfl | ⟨u, hu⟩
      · exact absurd hstart hv
      · exact (h.priced.estimated v u hu).2
    have hrelaxed : ∀ u ∈ order, ∀ v, q.Step u v → v ∉ order → (nodes v).g ≤ (nodes u).g + bound u v :=
      fun u hu v hstep hv => (h.priced.relaxed u hu v hstep trivial hv).trans
        (add_le_add_right (hq.le u v (hq.node_lt hbase hu) hstep) _)
    refine settle_least hq.consistent hstart h.best hrelaxed hopen ?_
    intro u hu v hstep hv
    have hfound := h.priced.complete.covered u hu v hstep trivial
    rw [← hestimate v hv hfound, ← hestimate item.node hopen (hbase.items item hpops.mem.1)]
    by_cases hsame : v = item.node
    · rw [hsame]
    · obtain ⟨other, hother, rfl, hf⟩ := h.priced.complete.live v hv hfound
      have hlive : Live nodes other := by
        refine ⟨?_, beq_iff_eq.mpr hf⟩
        rw [← Bool.not_eq_true, hbase.closed]
        exact hv
      have hleast := (hpops.least h.priced.ordered).2 other (hpops.keeps hother hlive hsame)
      simp only [HeapItem.comp, decide_eq_false_iff_not, gt_iff_lt, not_lt] at hleast
      rw [← hf, ← beq_iff_eq.mp hpops.live.2]
      exact hleast

omit [IsOrderedCancelAddMonoid K] in
theorem Priced.settle (hbase : Base q order nodes heap) (h : Priced q (fun _ _ => True) order nodes heap)
    (hpops : Pops nodes heap item rest) :
    Priced q (fun u _ => u ≠ item.node) (item.node :: order) (close nodes item.node) rest := by
  have hf := fun v => (close_same nodes item.node v).1
  have hg := fun v => (close_same nodes item.node v).2.1
  have hh := fun v => (close_same nodes item.node v).2.2
  have hcomplete := h.complete.settle (fun _ => BEq.rfl) hbase hpops
  refine ⟨hcomplete, (hpops.least h.ordered).1, (hg _).trans h.start, fun v u hv => ?_, fun v u hv => ?_, fun v u hv => ?_,
    fun u hu v hstep hne hv => ?_⟩
  · rw [parents_close] at hv
    rw [hg, hg]
    exact h.tight v u hv
  · rw [parents_close] at hv
    rw [hg]
    exact h.positive v u hv
  · rw [parents_close] at hv
    rw [hf, hg, hh]
    exact h.estimated v u hv
  · rw [hg, hg]
    exact h.relaxed u ((List.mem_cons.mp hu).resolve_left hne) v hstep trivial
      fun hmem => hv (List.mem_cons_of_mem _ hmem)

theorem Near.settle (hq : Within q bound) (hbase : Base q order nodes heap)
    (h : Near q bound (fun _ _ => True) order nodes heap) (hpops : Pops nodes heap item rest) :
    Near q bound (fun u _ => u ≠ item.node) (item.node :: order) (close nodes item.node) rest := by
  refine ⟨h.priced.settle hbase hpops, fun v hv p hp => ?_⟩
  rw [(close_same nodes item.node v).2.1]
  rcases List.mem_cons.mp hv with rfl | hv
  · exact h.popped hq hbase hpops p hp
  · exact h.best v hv p hp

omit [IsOrderedCancelAddMonoid K] in
/-- A closed node has a cost of at least 0. -/
theorem Priced.nonneg {E : Nat → Nat → Prop} (hbase : Base q order nodes heap) (h : Priced q E order nodes heap)
    {u : Nat} (hu : u ∈ order) : 0 ≤ (nodes u).g := by
  rcases hbase.tree.found u hu with rfl | ⟨v, hv⟩
  · exact h.start.ge
  · exact (h.positive u v hv).le

omit [IsOrderedCancelAddMonoid K] in
/-- Where the marker is 0 the node is new, and else it has the heuristic that it would get now. -/
theorem Priced.marker {E : Nat → Nat → Prop} (h : Priced q E order nodes heap) {v : Nat} {g n : K}
    (hcase : ((nodes v).g == 0) = false ∧ g < (nodes v).g ∧ n = (nodes v).h ∨
      ((nodes v).g == 0) = true ∧ n = q.estimate v) :
    n = q.estimate v ∧ ((∃ u, parents nodes v = some u) → g < (nodes v).g) := by
  rcases hcase with ⟨hseen, hlt, rfl⟩ | ⟨hunseen, rfl⟩
  · refine ⟨?_, fun _ => hlt⟩
    cases hparent : parents nodes v with
    | none =>
      rw [h.complete.unseen v hparent, beq_self_eq_true] at hseen
      cases hseen
    | some u => exact (h.estimated v u hparent).1
  · refine ⟨rfl, fun ⟨u, hu⟩ => ?_⟩
    have hpos := h.positive v u hu
    rw [beq_iff_eq.mp hunseen] at hpos
    exact absurd hpos (lt_irrefl 0)

/-- An open node gets the cost over `current`. -/
theorem Priced.reach (hq : Within q bound) {E : Nat → Nat → Prop} {current w : Nat} {c : Int × Int}
    (hbase : Base q order nodes heap) (hcurrent : current ∈ order) (h : Priced q E order nodes heap)
    (hcell : cell q.map w = c) (hstep : q.Step current w) (hopen : w ∉ order)
    (hbetter : (∃ u, parents nodes w = some u) → (nodes current).g + q.cost current w < (nodes w).g)
    (hcomplete : Complete q (fun u v => E u v ∨ u = current ∧ cell q.map v = c) order
      (reached nodes w current (q.estimate w) ((nodes current).g + q.cost current w)) heap')
    (hordered : IsHeap HeapItem.comp heap') :
    Priced q (fun u v => E u v ∨ u = current ∧ cell q.map v = c) order
      (reached nodes w current (q.estimate w) ((nodes current).g + q.cost current w)) heap' := by
  have hstart := hbase.tree.first (List.ne_nil_of_mem hcurrent)
  have hold : ∀ v, v ≠ w → reached nodes w current (q.estimate w)
    ((nodes current).g + q.cost current w) v = nodes v :=
    fun v hv => Function.update_of_ne hv ..
  have hclosed : ∀ v ∈ order, v ≠ w := fun v hv heq => hopen (heq ▸ hv)
  have hcur := hold current (hclosed current hcurrent)
  have hpos : 0 < (nodes current).g + q.cost current w :=
    add_pos_of_nonneg_of_pos (h.nonneg hbase hcurrent) (hq.positive current w (hq.node_lt hbase hcurrent) hstep)
  refine ⟨hcomplete, hordered, ?_, fun v u hv => ?_, fun v u hv => ?_, fun v u hv => ?_,
    fun u hu v hstep' hE hv => ?_⟩
  · rw [hold q.start (hclosed q.start hstart)]
    exact h.start
  · rcases parents_reached_cases hv with ⟨rfl, rfl⟩ | ⟨hvw, hv⟩
    · rw [hcur]
      simp only [reached, Function.update_self]
    · rw [hold v hvw, hold u (hclosed u (hbase.tree.closed v u hv).1)]
      exact h.tight v u hv
  · rcases parents_reached_cases hv with ⟨rfl, rfl⟩ | ⟨hvw, hv⟩
    · simp only [reached, Function.update_self]
      exact hpos
    · rw [hold v hvw]
      exact h.positive v u hv
  · rcases parents_reached_cases hv with ⟨rfl, rfl⟩ | ⟨hvw, hv⟩
    · simp only [reached, Function.update_self, and_self]
    · rw [hold v hvw]
      exact h.estimated v u hv
  · rw [hold u (hclosed u hu)]
    by_cases hvw : v = w
    · subst hvw
      simp only [reached, Function.update_self]
      rcases hE with hE | ⟨rfl, -⟩
      · -- the node was found before, and is reached at a lower cost now
        have hfound := (h.complete.covered u hu v hstep' hE).resolve_left fun heq => hv (heq ▸ hstart)
        exact (hbetter hfound).le.trans (h.relaxed u hu v hstep' hE hv)
      · exact le_refl _
    · rw [hold v hvw]
      rcases hE with hE | ⟨rfl, hcell'⟩
      · exact h.relaxed u hu v hstep' hE hv
      · exact absurd (cell_inj (hcell'.trans hcell.symm)) hvw

theorem Priced.visit (hq : Within q bound) {E : Nat → Nat → Prop} {current : Nat} {c : Int × Int}
    (hbase : Base q order nodes heap) (hcurrent : current ∈ order) (h : Priced q E order nodes heap)
    (hvisit : Visit q current nodes heap c nodes' heap') :
    Priced q (fun u v => E u v ∨ u = current ∧ cell q.map v = c) order nodes' heap' := by
  have hcomplete := h.complete.visit BEq.rfl hbase hvisit
  -- only the step to the cell is new
  have hrelaxed : (∀ v, q.Step current v → cell q.map v = c → v ∉ order →
      (nodes v).g ≤ (nodes current).g + q.cost current v) → ∀ u ∈ order, ∀ v, q.Step u v →
      E u v ∨ u = current ∧ cell q.map v = c → v ∉ order → (nodes v).g ≤ (nodes u).g + q.cost u v := by
    intro hnew u hu v hstep hE hv
    rcases hE with hE | ⟨rfl, hcell⟩
    · exact h.relaxed u hu v hstep hE hv
    · exact hnew v hstep hcell hv
  cases hvisit with
  | outside hstep =>
    refine ⟨hcomplete, h.ordered, h.start, h.tight, h.positive, h.estimated,
      hrelaxed fun v hv hcell _ => absurd ?_ hstep⟩
    rw [← hcell]
    exact hv.2
  | closed w hcell hstep hclosed =>
    refine ⟨hcomplete, h.ordered, h.start, h.tight, h.positive, h.estimated,
      hrelaxed fun v hv hcell' hopen => absurd ?_ hopen⟩
    rw [cell_inj (hcell'.trans hcell.symm)]
    exact (hbase.closed w).mp hclosed
  | keep w hcell hstep hopen hseen hge =>
    refine ⟨hcomplete, h.ordered, h.start, h.tight, h.positive, h.estimated,
      hrelaxed fun v hv hcell' _ => ?_⟩
    rw [cell_inj (hcell'.trans hcell.symm)]
    exact not_lt.mp hge
  | reach w n hcell hstep hopen hcase =>
    obtain ⟨rfl, hbetter⟩ := h.marker hcase
    have hw : w ∉ order := fun hmem => by
      rw [(hbase.closed w).mpr hmem] at hopen
      cases hopen
    have hordered := q.std.pushHeap_isHeap HeapItem.comp
      (heap ++ [⟨(nodes current).g + q.cost current w + q.estimate w, w⟩])
      (by rw [List.dropLast_concat]; exact h.ordered)
    exact h.reach hq hbase hcurrent hcell hstep hw hbetter hcomplete hordered

omit [IsOrderedCancelAddMonoid K] in
/-- A visit leaves the cost of a closed node. -/
theorem Visit.closed_g {current : Nat} {c : Int × Int} (hbase : Base q order nodes heap)
    (hvisit : Visit q current nodes heap c nodes' heap') {v : Nat} (hv : v ∈ order) :
    (nodes' v).g = (nodes v).g := by
  cases hvisit with
  | outside | closed | keep => rfl
  | reach w n hcell hstep hopen hcase =>
    have hne : v ≠ w := fun heq => by
      rw [← heq, (hbase.closed v).mpr hv] at hopen
      cases hopen
    rw [reached, Function.update_of_ne hne]

theorem near_rule (hq : Within q bound) : Rule q (Near q bound) where
  mono hE h := ⟨⟨(complete_rule q).mono hE h.priced.complete, h.priced.ordered, h.priced.start, h.priced.tight,
    h.priced.positive, h.priced.estimated, fun u hu v hstep hE' hv => h.priced.relaxed u hu v hstep (hE u v hstep hE') hv⟩,
    h.best⟩
  settle hbase h hpops := h.settle hq hbase hpops
  visit hbase hcurrent h hvisit := ⟨h.priced.visit hq hbase hcurrent hvisit, fun v hv p hp => by
    rw [hvisit.closed_g hbase hv]
    exact h.best v hv p hp⟩

omit [IsOrderedCancelAddMonoid K] in
/-- What holds of the nodes of a search that begins. -/
theorem Near.init (q : Query U K) (bound : Nat → Nat → K) (generation : Nat) :
    Near q bound (fun _ _ => True) [] (freshNode q.map generation)
      (q.std.pushHeap HeapItem.comp [⟨0, q.start⟩]) := by
  refine ⟨⟨.init q generation, q.std.pushHeap_isHeap _ _ ?_, rfl, fun v u hv => ?_, fun v u hv => ?_, fun v u hv => ?_,
    fun u hu => absurd hu List.not_mem_nil⟩, fun v hv => absurd hv List.not_mem_nil⟩
  · exact fun i a b _ ha => by cases ha
  all_goals cases hv

/-! ## Least costs -/

/-- What the search knows of the costs, when the heuristic is consistent. -/
structure Optimal (q : Query U K) (E : Nat → Nat → Prop) (order : List Nat) (nodes : Nat → PathNode K)
    (heap : List (HeapItem K)) : Prop where
  complete : Complete q E order nodes heap
  ordered : IsHeap HeapItem.comp heap
  start : (nodes q.start).g = 0
  tight : ∀ v u, parents nodes v = some u → (nodes v).g = (nodes u).g + q.cost u v
  positive : ∀ v u, parents nodes v = some u → 0 < (nodes v).g
  estimated : ∀ v u, parents nodes v = some u → (nodes v).h = q.estimate v ∧
    (nodes v).f = (nodes v).g + q.estimate v
  best : ∀ v ∈ order, ∀ p, IsPath q.Step q.start p v → (nodes v).g ≤ pathCost q.cost q.start p
  relaxed : ∀ u ∈ order, ∀ v, q.Step u v → E u v → v ∉ order → (nodes v).g ≤ (nodes u).g + q.cost u v

/-- The costs are above 0, and the heuristic is consistent. -/
structure Consistent (q : Query U K) : Prop where
  inMap : q.start < q.map.getWidth * q.map.getHeight
  positive : ∀ u v, u < q.map.getWidth * q.map.getHeight → q.Step u v → 0 < q.cost u v
  consistent : ∀ u v w, q.Step u v → q.Step v w → q.estimate v ≤ q.cost v w + q.estimate w

omit [IsOrderedCancelAddMonoid K] in
/-- It is to be near with `bound` the costs themselves. -/
theorem optimal_iff {E : Nat → Nat → Prop} : Optimal q E order nodes heap ↔ Near q q.cost E order nodes heap := by
  constructor
  · intro h
    exact ⟨⟨h.complete, h.ordered, h.start, h.tight, h.positive, h.estimated, h.relaxed⟩, h.best⟩
  · rintro ⟨h, hbest⟩
    exact ⟨h.complete, h.ordered, h.start, h.tight, h.positive, h.estimated, hbest, h.relaxed⟩

omit [IsOrderedCancelAddMonoid K] in
theorem Consistent.within (hq : Consistent q) : Within q q.cost :=
  ⟨hq.inMap, hq.positive, fun _ _ _ _ => le_refl _, hq.consistent⟩

/-- **The node that is popped has its least cost.** -/
theorem Optimal.popped (hq : Consistent q) (hbase : Base q order nodes heap)
    (h : Optimal q (fun _ _ => True) order nodes heap) (hpops : Pops nodes heap item rest) :
    ∀ p, IsPath q.Step q.start p item.node → (nodes item.node).g ≤ pathCost q.cost q.start p :=
  (optimal_iff.mp h).popped hq.within hbase hpops

theorem optimal_rule (hq : Consistent q) : Rule q (Optimal q) where
  mono hE h := optimal_iff.mpr ((near_rule hq.within).mono hE (optimal_iff.mp h))
  settle hbase h hpops := optimal_iff.mpr ((near_rule hq.within).settle hbase (optimal_iff.mp h) hpops)
  visit hbase hcurrent h hvisit := optimal_iff.mpr ((near_rule hq.within).visit hbase hcurrent (optimal_iff.mp h) hvisit)

omit [IsOrderedCancelAddMonoid K] in
/-- What holds of the nodes of a search that begins. -/
theorem Optimal.init (q : Query U K) (generation : Nat) :
    Optimal q (fun _ _ => True) [] (freshNode q.map generation) (q.std.pushHeap HeapItem.comp [⟨0, q.start⟩]) :=
  optimal_iff.mpr (.init q q.cost generation)

/-! ## Cells -/

/-- The cost of a step between two cells. -/
def stepCost (getCost : Int → Int → Int → Int → K) (b c : Int × Int) : K := getCost b.1 b.2 c.1 c.2

omit [LinearOrder K] [IsOrderedCancelAddMonoid K] in
/-- A path over cells is one over their nodes, for the same cost. -/
theorem path_nodes (q : Query U K) (hnumbered : Numbered q.map) (f : Int × Int → Int × Int → K) {s t : Int × Int}
    {p : List (Int × Int)} (hs : InMap q.map s) (hp : IsPath (AStar.Step q.map q.userdata) s p t) :
    IsPath q.Step (index q.map s) (p.map (index q.map)) (index q.map t) ∧
      pathCost (fun u v => f (cell q.map u) (cell q.map v)) (index q.map s) (p.map (index q.map)) =
        pathCost f s p := by
  induction p generalizing s with
  | nil => exact ⟨congrArg (index q.map) hp, rfl⟩
  | cons c p ih =>
    obtain ⟨hstep, hp⟩ := hp
    obtain ⟨hpath, hcost⟩ := ih hstep.2.1 hp
    refine ⟨⟨⟨index_lt hnumbered hstep.2.1, ?_⟩, hpath⟩, ?_⟩
    · rw [cell_index hnumbered hs, cell_index hnumbered hstep.2.1]
      exact hstep
    · rw [List.map_cons, pathCost, pathCost, hcost, cell_index hnumbered hs, cell_index hnumbered hstep.2.1]

omit [LinearOrder K] [IsOrderedCancelAddMonoid K] in
/-- What `lastPath` costs is the cost of the end. -/
theorem links_cost {a' : AStar K} (htree : Tree q.Step q.start order (parents nodes))
    (hstart : (nodes q.start).g = 0)
    (htight : ∀ v u, parents nodes v = some u → (nodes v).g = (nodes u).g + q.cost u v)
    (hpath : IsPath (fun u w => parents nodes w = some u) q.start a'.lastPath q.end_)
    (hcells : ∀ v ∈ a'.lastPath, ((a'.nodes v).x, (a'.nodes v).y) = cell q.map v) :
    pathCost (stepCost q.getCost) (cell q.map q.start) a'.path = (nodes q.end_).g := by
  have hlinks := pathCost_links htight hpath
  rw [hstart, zero_add] at hlinks
  rw [(path_of_links htree hpath hcells).1, pathCost_map, ← hlinks]
  rfl

variable [NatCast K] [OfScientific K]

/-- **`findPath` finds a cheapest path.**  After any calls, with costs above 0 between neighbours and
a heuristic that is consistent between free neighbours, and for every `maxCount`: when `findPath`
returns true, no way from the start to the end costs less than `lastPath`. -/
theorem finds_cheapest (std : HeapAlgorithms) (max : Int) (history : List (Call U K)) (a : AStar K)
    (out : List (Option Bool)) (hrun : runOps (step std) (AStar.new max) history = some (a, out))
    (map : AbstractMap U) (hsized : Sized map) (userdata : U) (start end_ : Int × Int) (hstart : InMap map start)
    (hend : map.isBlock end_.1 end_.2 userdata = false → InMap map end_) (hne : start ≠ end_)
    (heuristic getCost : Int → Int → Int → Int → K) (hheuristic : a.heuristic.getD manhattanDistance = heuristic)
    (hgetCost : a.getCost.getD commonCost = getCost)
    (hpositive : ∀ b c, InMap map b → InMap map c → Neighbour b c → 0 < getCost b.1 b.2 c.1 c.2)
    (hconsistent : ∀ b c, InMap map b → map.isBlock b.1 b.2 userdata = false → Step map userdata b c →
      heuristic b.1 b.2 end_.1 end_.2 ≤ getCost b.1 b.2 c.1 c.2 + heuristic c.1 c.2 end_.1 end_.2) :
    ∃ a' found, a.findPath std map start.1 start.2 end_.1 end_.2 userdata = some (a', found) ∧
      (found = true → IsLeast {k | ∃ p, IsPath (Step map userdata) start p end_ ∧ pathCost (stepCost getCost) start p = k}
        (pathCost (stepCost getCost) start a'.path)) := by
  cases hblock : map.isBlock end_.1 end_.2 userdata with
  | true => exact ⟨_, false, findPath_blocked std a hne hblock, fun hfalse => by cases hfalse⟩
  | false =>
    have hend := hend hblock
    have hnumbered := hsized.numbered
    generalize hq : query std map a start end_ userdata = q
    have hmap : q.map = map := by rw [← hq]; rfl
    have huser : q.userdata = userdata := by rw [← hq]; rfl
    have hcost : q.getCost = getCost := by rw [← hq, ← hgetCost]; rfl
    have hcellS : cell q.map q.start = start := by rw [← hq]; exact cell_index hnumbered hstart
    have hcellE : cell q.map q.end_ = end_ := by rw [← hq]; exact cell_index hnumbered hend
    have hindexS : index q.map start = q.start := by rw [← hq]; rfl
    have hindexE : index q.map end_ = q.end_ := by rw [← hq]; rfl
    have hcons : Consistent q := by
      refine ⟨hindexS ▸ index_lt (hmap ▸ hnumbered) (hmap ▸ hstart), fun u v hu hstep => ?_, fun u v w huv hvw => ?_⟩
      · rw [Query.cost, hcost]
        exact hpositive _ _ (hmap ▸ inMap_cell hu) (hmap ▸ hstep.2.2.1) hstep.2.1
      · have hh : q.heuristic = heuristic := by rw [← hq, ← hheuristic]; rfl
        rw [Query.estimate, Query.estimate, Query.cost, hcost, hh, hcellE]
        exact hconsistent _ _ (hmap ▸ huv.2.2.1) (by rw [← hmap, ← huser]; exact huv.2.2.2)
          (by rw [← hmap, ← huser]; exact hvw.2)
    obtain ⟨a', hfind, houtcome⟩ := findPath_returns std hnumbered (fresh_of_calls hrun) hstart hend hne userdata
      hblock (Sized.counts _ hsized (index_lt hnumbered hstart) _) (optimal_rule (hq.symm ▸ hcons)) (Optimal.init _)
    rw [hq] at houtcome
    refine ⟨a', _, hfind, fun hfound => ?_⟩
    cases houtcome with
    | missed _ _ _ _ _ _ hpath _ =>
      rw [hpath] at hfound
      cases hfound
    | found order nodes heap rest item hbase hinv hpops hitem hpath hsub hnot hcells =>
      have hwalk := (path_of_links hbase.tree hpath hcells).2
      have hsame := links_cost hbase.tree hinv.start hinv.tight hpath hcells
      rw [hcellS, hcost] at hsame
      rw [hcellS, hcellE, hmap, huser] at hwalk
      refine ⟨⟨a'.path, hwalk, rfl⟩, ?_⟩
      rintro k ⟨p, hp, rfl⟩
      rw [← hmap, ← huser] at hp
      obtain ⟨hnodes, hcost'⟩ := path_nodes q (hmap ▸ hnumbered) (stepCost q.getCost) (hmap ▸ hstart) hp
      change pathCost q.cost _ _ = _ at hcost'
      rw [hindexS, hindexE] at hnodes
      rw [hindexS, hcost] at hcost'
      rw [hsame, ← hcost', ← hitem]
      exact hinv.popped hcons hbase hpops _ (hitem ▸ hnodes)

end Libws.Core.AStar
