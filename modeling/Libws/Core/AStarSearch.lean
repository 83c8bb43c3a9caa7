import Libws.Lib.Search
import Libws.Core.AStarGrid

/-!
# The search loop

* `Base` — the parents of the nodes are the links of a search that has closed `order`;
* `Counts` — the loop can count all of its rounds;
* `Rule`, `round_spec`, `search_spec` — what one pop and one visit keep, a round keeps and the whole
  search, and `Outcome` tells how it ends.
-/

set_option autoImplicit false

namespace Libws.Core.AStar

open Libws.Heap Libws.Integer Libws.Loop Libws.Search

variable {U K : Type} [Zero K] [Add K] [LT K] [DecidableLT K] [BEq K]

/-! ## The tree of a search -/

def parents (nodes : Nat → PathNode K) (v : Nat) : Option Nat := (nodes v).parent

/-- What the search takes a node for after `isClosed = true`. -/
def close (nodes : Nat → PathNode K) (v : Nat) : Nat → PathNode K :=
  Function.update nodes v { nodes v with isClosed := true }

/-- The nodes and the heap of a search that has closed the nodes `order`. -/
structure Base (q : Query U K) (order : List Nat) (nodes : Nat → PathNode K) (heap : List (HeapItem K)) : Prop where
  tree : Tree q.Step q.start order (parents nodes)
  closed : ∀ v, (nodes v).isClosed = true ↔ v ∈ order
  items : ∀ item ∈ heap, Found q.start (parents nodes) item.node

omit [Zero K] [Add K] [LT K] [DecidableLT K] [BEq K] in
theorem parents_close (nodes : Nat → PathNode K) (v : Nat) : parents (close nodes v) = parents nodes := by
  funext u
  by_cases hu : u = v
  · subst hu
    simp only [parents, close, Function.update_self]
  · simp only [parents, close, Function.update_of_ne hu]

omit [Zero K] [LT K] [DecidableLT K] [BEq K] in
theorem parents_reached (nodes : Nat → PathNode K) (v current : Nat) (h g : K) :
    parents (reached nodes v current h g) = Function.update (parents nodes) v (some current) := by
  funext u
  by_cases hu : u = v
  · subst hu
    simp only [parents, reached, Function.update_self]
  · simp only [parents, reached, Function.update_of_ne hu]

omit [Zero K] [LT K] [DecidableLT K] [BEq K] in
/-- The links after a node was reached: its own, and those of the others. -/
theorem parents_reached_cases {nodes : Nat → PathNode K} {w current : Nat} {h g : K} {v u : Nat}
    (hv : parents (reached nodes w current h g) v = some u) :
    v = w ∧ u = current ∨ v ≠ w ∧ parents nodes v = some u := by
  rw [parents_reached] at hv
  by_cases hvw : v = w
  · subst hvw
    rw [Function.update_self] at hv
    exact Or.inl ⟨rfl, (Option.some.inj hv).symm⟩
  · rw [Function.update_of_ne hvw] at hv
    exact Or.inr ⟨hvw, hv⟩

omit [Zero K] [Add K] in
/-- The item that is popped is of an open node, and the others were in the heap. -/
theorem Pops.mem {nodes : Nat → PathNode K} {heap rest : List (HeapItem K)} {item : HeapItem K}
    (h : Pops nodes heap item rest) : item ∈ heap ∧ ∀ other ∈ rest, other ∈ heap := by
  obtain ⟨skipped, -, hperm⟩ := h.skips
  exact ⟨hperm.mem_iff.mpr (by simp), fun other hother => hperm.mem_iff.mpr (by simp [hother])⟩

omit [Zero K] [Add K] in
theorem Base.pops {q : Query U K} {order : List Nat} {nodes : Nat → PathNode K} {heap rest : List (HeapItem K)}
    {item : HeapItem K} (h : Base q order nodes heap) (hpops : Pops nodes heap item rest) :
    item.node ∉ order ∧ Tree q.Step q.start (item.node :: order) (parents nodes) := by
  have hopen : item.node ∉ order := fun hmem => by
    have hlive := hpops.live.1
    rw [(h.closed item.node).mpr hmem] at hlive
    cases hlive
  exact ⟨hopen, h.tree.settle hopen (h.items item hpops.mem.1)⟩

omit [Zero K] [Add K] in
/-- Closing the node that was popped. -/
theorem Base.settle {q : Query U K} {order : List Nat} {nodes : Nat → PathNode K} {heap rest : List (HeapItem K)}
    {item : HeapItem K} (h : Base q order nodes heap) (hpops : Pops nodes heap item rest) :
    Base q (item.node :: order) (close nodes item.node) rest := by
  refine ⟨parents_close nodes item.node ▸ (h.pops hpops).2, fun v => ?_, fun other hother => ?_⟩
  · by_cases hv : v = item.node
    · subst hv
      simp [close]
    · simp only [close, Function.update_of_ne hv, List.mem_cons, hv, false_or]
      exact h.closed v
  · rw [parents_close]
    exact h.items other (hpops.mem.2 other hother)

/-- Visiting a cell around a closed node. -/
theorem Base.visit {q : Query U K} {order : List Nat} {current : Nat} {nodes nodes' : Nat → PathNode K}
    {heap heap' : List (HeapItem K)} {c : Int × Int} (h : Base q order nodes heap) (hcurrent : current ∈ order)
    (hvisit : Visit q current nodes heap c nodes' heap') : Base q order nodes' heap' := by
  cases hvisit with
  | outside | closed | keep => exact h
  | reach v hv hcell hstep hopen hcase =>
    have hnot : v ∉ order := fun hmem => by
      rw [(h.closed v).mpr hmem] at hopen
      cases hopen
    refine ⟨parents_reached nodes v current _ _ ▸ h.tree.relax hcurrent hnot hstep, fun u => ?_,
      fun item hitem => ?_⟩
    · by_cases hu : u = v
      · subst hu
        simp only [reached, Function.update_self]
        exact h.closed u
      · simp only [reached, Function.update_of_ne hu]
        exact h.closed u
    · rw [parents_reached]
      rcases List.mem_append.mp ((q.std.pushHeap_perm _ _).mem_iff.mp hitem) with hitem | hitem
      · rcases h.items item hitem with hstart | ⟨u, hu⟩
        · exact Or.inl hstart
        · by_cases hv : item.node = v
          · exact Or.inr ⟨current, by rw [hv, Function.update_self]⟩
          · exact Or.inr ⟨u, by rw [Function.update_of_ne hv]; exact hu⟩
      · rw [List.mem_singleton.mp hitem]
        exact Or.inr ⟨current, Function.update_self ..⟩

/-! ## What a whole search keeps -/

/-- `Inv E order nodes heap` may speak of the steps from closed nodes in `E`: all of them between
two rounds of the search, and in a round those to the cells that were visited. -/
structure Rule (q : Query U K)
    (Inv : (Nat → Nat → Prop) → List Nat → (Nat → PathNode K) → List (HeapItem K) → Prop) : Prop where
  mono : ∀ {E E' : Nat → Nat → Prop} {order nodes heap}, (∀ u v, q.Step u v → E' u v → E u v) →
    Inv E order nodes heap → Inv E' order nodes heap
  settle : ∀ {order nodes heap item rest}, Base q order nodes heap → Inv (fun _ _ => True) order nodes heap →
    Pops nodes heap item rest → Inv (fun u _ => u ≠ item.node) (item.node :: order) (close nodes item.node) rest
  visit : ∀ {E order current nodes heap c nodes' heap'}, Base q order nodes heap → current ∈ order →
    Inv E order nodes heap → Visit q current nodes heap c nodes' heap' →
    Inv (fun u v => E u v ∨ u = current ∧ cell q.map v = c) order nodes' heap'

variable {q : Query U K} {Inv : (Nat → Nat → Prop) → List Nat → (Nat → PathNode K) → List (HeapItem K) → Prop}

/-- **The two loops around a closed node.** -/
theorem visits_spec (rule : Rule q Inv) {order : List Nat} {current : Nat} (hcurrent : current ∈ order) :
    ∀ (cells : List (Int × Int)) (E : Nat → Nat → Prop) (a : AStar K) (nodes : Nat → PathNode K),
    (∀ c ∈ cells, c ∈ around (cell q.map current).1 (cell q.map current).2) → Shows q.map a nodes →
    (a.nodes current).generation = a.searchGeneration → (a.nodes q.end_).generation = a.searchGeneration →
    Base q order nodes a.openHeap → Inv E order nodes a.openHeap →
    ∃ a' nodes', cells.foldlM (visit q.std q.map q.userdata q.heuristic q.getCost current q.end_) a = some a' ∧
      Shows q.map a' nodes' ∧ Grows a a' ∧ Base q order nodes' a'.openHeap ∧
      Inv (fun u v => E u v ∨ u = current ∧ cell q.map v ∈ cells) order nodes' a'.openHeap
  | [], E, a, nodes, _, hshows, _, _, hbase, hinv =>
    ⟨a, nodes, rfl, hshows, fun _ hv => hv, hbase,
      rule.mono (fun u v _ h => h.resolve_right fun hcell => absurd hcell.2 List.not_mem_nil) hinv⟩
  | c :: cells, E, a, nodes, hcells, hshows, hgen, hend, hbase, hinv => by
    obtain ⟨a₁, nodes₁, hvisit, hshows₁, hcase, hgrows₁⟩ :=
      visit_spec hshows hgen hend (hcells c (List.mem_cons_self ..))
    obtain ⟨a', nodes', hrest, hshows', hgrows', hbase', hinv'⟩ :=
      visits_spec rule hcurrent cells (fun u v => E u v ∨ u = current ∧ cell q.map v = c) a₁ nodes₁
        (fun c' hc' => hcells c' (List.mem_cons_of_mem c hc')) hshows₁ (hgrows₁ current hgen) (hgrows₁ q.end_ hend)
        (hbase.visit hcurrent hcase) (rule.visit hbase hcurrent hinv hcase)
    refine ⟨a', nodes', ?_, hshows', fun v hv => hgrows' v (hgrows₁ v hv), hbase', rule.mono ?_ hinv'⟩
    · rw [List.foldlM_cons, hvisit]
      exact hrest
    · rintro u v - (hE | ⟨rfl, hcell⟩)
      · exact Or.inl (Or.inl hE)
      · rcases List.mem_cons.mp hcell with hcell | hcell
        · exact Or.inl (Or.inr ⟨rfl, hcell⟩)
        · exact Or.inr ⟨rfl, hcell⟩

omit [Zero K] [Add K] [LT K] [DecidableLT K] [BEq K] in
/-- `walk` climbs the tree of the search. -/
theorem walk_eq {order : List Nat} {nodes : Nat → PathNode K} (htree : Tree q.Step q.start order (parents nodes)) :
    ∀ (n v : Nat) (a : AStar K), (∀ u ∈ order, a.nodes u = nodes u) → v ∈ order →
    a.walk n v = (climb (parents nodes) n v a.lastPath).map fun path => { a with lastPath := path }
  | 0, _, _, _, _ => rfl
  | n + 1, v, a, hstored, hv => by
    unfold walk climb
    rw [hstored v hv]
    cases hparent : parents nodes v with
    | none =>
      have hlast : (nodes v).parent = none := hparent
      rw [hlast]
      rfl
    | some u =>
      have hnext : (nodes v).parent = some u := hparent
      rw [hnext]
      exact walk_eq htree n u _ hstored (htree.closed v u hparent).1

omit [Zero K] [Add K] [LT K] [DecidableLT K] [BEq K] in
/-- A search closes only nodes of the map. -/
theorem closed_lt {order : List Nat} {parent : Nat → Option Nat} (htree : Tree q.Step q.start order parent)
    (hstart : q.start < q.map.getWidth * q.map.getHeight) {v : Nat} (hv : v ∈ order) :
    v < q.map.getWidth * q.map.getHeight := by
  rcases htree.found v hv with rfl | ⟨u, hu⟩
  · exact hstart
  · exact (htree.closed v u hu).2.1

omit [Zero K] [Add K] [LT K] [DecidableLT K] [BEq K] in
/-- A search closes no more nodes than the map has. -/
theorem closed_length_le {order : List Nat} {parent : Nat → Option Nat}
    (htree : Tree q.Step q.start order parent) (hstart : q.start < q.map.getWidth * q.map.getHeight) :
    order.length ≤ q.map.getWidth * q.map.getHeight := by
  have hsub : order ⊆ List.range (q.map.getWidth * q.map.getHeight) := fun v hv =>
    List.mem_range.mpr (closed_lt htree hstart hv)
  have hle := (List.subperm_of_subset htree.nodup hsub).length_le
  rw [List.length_range] at hle
  exact hle

/-- How a search ends that has closed `order` and has `left` rounds left. -/
inductive Outcome (q : Query U K) (Inv : (Nat → Nat → Prop) → List Nat → (Nat → PathNode K) →
  List (HeapItem K) → Prop)
    (order : List Nat) (left : Nat) (a' : AStar K) : Prop where
  | found (order' : List Nat) (nodes : Nat → PathNode K) (heap rest : List (HeapItem K)) (item : HeapItem K)
      (hbase : Base q order' nodes heap) (hinv : Inv (fun _ _ => True) order' nodes heap)
      (hpops : Pops nodes heap item rest) (hend : item.node = q.end_)
      (hpath : IsPath (fun u w => parents nodes w = some u) q.start a'.lastPath q.end_)
      (hsub : a'.lastPath.reverse.Sublist (q.end_ :: order')) (hstart : q.start ∉ a'.lastPath)
      (hcells : ∀ v ∈ a'.lastPath, ((a'.nodes v).x, (a'.nodes v).y) = cell q.map v)
  | missed (order' : List Nat) (nodes : Nat → PathNode K) (heap : List (HeapItem K))
      (hbase : Base q order' nodes heap) (hinv : Inv (fun _ _ => True) order' nodes heap) (hend : q.end_ ∉ order')
      (hpath : a'.lastPath = [])
      (hwhy : (∀ item ∈ heap, ¬ Live nodes item) ∨ order'.length = order.length + left)

omit [Add K] [LT K] [DecidableLT K] [BEq K] in
/-- A node that this search has closed is of this search. -/
theorem Shows.closed {map : AbstractMap U} {a : AStar K} {nodes : Nat → PathNode K}
    (h : Shows map a nodes) {v : Nat} (hv : (nodes v).isClosed = true) : a.nodes v = nodes v := by
  rw [h.nodes_eq] at hv ⊢
  split at hv
  · rename_i hgen
    rw [if_pos hgen]
  · cases hv

omit [Add K] [LT K] [DecidableLT K] [BEq K] in
/-- What `walk` writes down in a search that pops its end. -/
theorem walk_found {order : List Nat} {a : AStar K} {nodes : Nat → PathNode K}
    (hstart : q.start < q.map.getWidth * q.map.getHeight) (hshows : Shows q.map a nodes)
    (hgen : (a.nodes q.end_).generation = a.searchGeneration)
    (hclosed : ∀ v, (nodes v).isClosed = true ↔ v ∈ order)
    (htree : Tree q.Step q.start (q.end_ :: order) (parents nodes)) :
    ∃ p, climb (parents nodes) (a.mapNodes * NUM_NODE_SIZE + 1) q.end_ [] = some p ∧
      a.walk (a.mapNodes * NUM_NODE_SIZE + 1) q.end_ = some { a with lastPath := p } ∧
      IsPath (fun u w => parents nodes w = some u) q.start p q.end_ ∧ p.reverse.Sublist (q.end_ :: order) ∧
      q.start ∉ p ∧ ∀ v ∈ p, ((a.nodes v).x, (a.nodes v).y) = cell q.map v := by
  have hstored : ∀ u ∈ q.end_ :: order, a.nodes u = nodes u := fun u hu => by
    rcases List.mem_cons.mp hu with rfl | hu
    · exact hshows.current hgen
    · exact hshows.closed ((hclosed u).mpr hu)
  have hlen := Nat.le_trans (closed_length_le htree hstart) hshows.room.rows
  rw [List.length_cons] at hlen
  obtain ⟨p, hclimb, hpath, hsub, hnot⟩ :=
    htree.climb_spec (a.mapNodes * NUM_NODE_SIZE + 1) [] q.end_ order [] rfl (by omega)
  rw [List.append_nil] at hclimb
  refine ⟨p, hclimb, ?_, hpath, hsub, hnot, fun v hv => ?_⟩
  · rw [walk_eq htree _ _ a hstored (List.mem_cons_self ..), hshows.lastPath, hclimb]
    rfl
  · rw [hstored v (hsub.mem (List.mem_reverse.mpr hv))]
    exact hshows.at_cell v

omit [Add K] in
/-- The round that pops the end of the search. -/
theorem found_spec {order : List Nat} {a : AStar K} {nodes : Nat → PathNode K} {heap : List (HeapItem K)}
    {item : HeapItem K} (hstart : q.start < q.map.getWidth * q.map.getHeight) (hshows : Shows q.map a nodes)
    (hgen : (a.nodes q.end_).generation = a.searchGeneration) (hbase : Base q order nodes heap)
    (hinv : Inv (fun _ _ => True) order nodes heap) (hpops : Pops nodes heap item a.openHeap)
    (hend : item.node = q.end_) (left : Nat) :
    ∃ a', a.walk (a.mapNodes * NUM_NODE_SIZE + 1) item.node = some a' ∧ Outcome q Inv order left a' := by
  obtain ⟨-, htree⟩ := hbase.pops hpops
  rw [hend] at htree ⊢
  obtain ⟨p, -, hwalk, hpath, hsub, hnot, hcells⟩ := walk_found hstart hshows hgen hbase.closed htree
  exact ⟨_, hwalk, .found order nodes heap a.openHeap item hbase hinv hpops hend hpath hsub hnot hcells⟩

/-- The loops around a node do not count. -/
theorem visits_count {current : Nat} {cells : List (Int × Int)} {a a' : AStar K}
    (hvisits : cells.foldlM (visit q.std q.map q.userdata q.heuristic q.getCost current q.end_) a = some a') :
    a'.count = a.count := by
  have hkeep : ∀ (a₁ : AStar K) (c : Int × Int) (a₂ : AStar K), c ∈ cells → a₁.count = a.count →
      visit q.std q.map q.userdata q.heuristic q.getCost current q.end_ a₁ c = some a₂ → a₂.count = a.count :=
    fun _ _ _ _ h hvisit => (turn_count (turn_of_visit hvisit)).trans h
  exact foldlM_inv cells hkeep rfl hvisits

omit [Zero K] [Add K] [LT K] [DecidableLT K] [BEq K] in
/-- No `count++` overflows on a map that is `Sized`: every round has closed a node. -/
theorem Sized.count_represents {q : Query U K} (hsized : Sized q.map)
    (hstart : q.start < q.map.getWidth * q.map.getHeight) {order : List Nat} {parent : Nat → Option Nat}
    (htree : Tree q.Step q.start order parent) : int.Represents (order.length + 1) := by
  have hle := closed_length_le htree hstart
  unfold Sized at hsized
  rw [represents_int]
  omega

/-- Once a search has closed `max` nodes, and not its end, one more `count++` is an `int`. -/
def Counts (q : Query U K) (max : Nat) : Prop :=
  ∀ (order : List Nat) (parent : Nat → Option Nat), Tree q.Step q.start order parent → q.end_ ∉ order →
    order.length = max → int.Represents (max + 1)

omit [Zero K] [Add K] [LT K] [DecidableLT K] [BEq K] in
theorem Sized.counts (q : Query U K) (hsized : Sized q.map) (hstart : q.start < q.map.getWidth * q.map.getHeight)
    (max : Nat) : Counts q max := fun _ _ htree _ hlen => hlen ▸ hsized.count_represents hstart htree

/-- **A round** that pops another node than the end closes it, and finds its neighbours. -/
theorem round_spec (rule : Rule q Inv) (hstart : q.start < q.map.getWidth * q.map.getHeight) {order : List Nat}
    {a a₁ : AStar K} {nodes : Nat → PathNode K} {item : HeapItem K} (hshows : Shows q.map a nodes)
    (hend : (a.nodes q.end_).generation = a.searchGeneration) (hbase : Base q order nodes a.openHeap)
    (hinv : Inv (fun _ _ => True) order nodes a.openHeap) (hshows₁ : Shows q.map a₁ nodes) (hgrows₁ : Grows a a₁)
    (hpops : Pops nodes a.openHeap item a₁.openHeap) :
    ∃ a' nodes', visitColumns q.std q.map q.userdata q.heuristic q.getCost item.node q.end_
        (a₁.setNode item.node { a₁.nodes item.node with isClosed := true }) = some a' ∧
      Shows q.map a' nodes' ∧ (a'.nodes q.end_).generation = a'.searchGeneration ∧
      Base q (item.node :: order) nodes' a'.openHeap ∧
      Inv (fun _ _ => True) (item.node :: order) nodes' a'.openHeap ∧ a'.count = a₁.count := by
  have hend₁ : (a₁.nodes q.end_).generation = a₁.searchGeneration := hgrows₁ q.end_ hend
  have hitem : (a₁.nodes item.node).generation = a₁.searchGeneration :=
    hgrows₁ item.node (hshows.items item hpops.mem.1)
  have hshows₂ := hshows₁.setNode item.node { a₁.nodes item.node with isClosed := true } hitem
    (by rw [hshows₁.current hitem]; exact hshows₁.at_cell item.node)
  have hgrows₂ := setNode_grows a₁ item.node { a₁.nodes item.node with isClosed := true } hitem
  generalize ha₂ : a₁.setNode item.node { a₁.nodes item.node with isClosed := true } = a₂ at hshows₂ hgrows₂ ⊢
  have hheap : a₂.openHeap = a₁.openHeap := by rw [← ha₂]; rfl
  have hcount : a₂.count = a₁.count := by rw [← ha₂]; rfl
  rw [hshows₁.current hitem, ← close] at hshows₂
  rw [← hheap] at hpops
  obtain ⟨a₃, nodes₃, hvisits, hshows₃, hgrows₃, hbase₃, hinv₃⟩ :=
    visits_spec rule (List.mem_cons_self ..) _ _ a₂ (close nodes item.node) (fun c hc => hc) hshows₂
      (hgrows₂ item.node hitem) (hgrows₂ q.end_ hend₁) (hbase.settle hpops) (rule.settle hbase hinv hpops)
  have hin : item.node < q.map.getWidth * q.map.getHeight :=
    closed_lt hbase₃.tree hstart (List.mem_cons_self ..)
  rw [visitColumns_spec hin hshows₂ (hgrows₂ item.node hitem) (hgrows₂ q.end_ hend₁), hvisits]
  refine ⟨a₃, nodes₃, rfl, hshows₃, hgrows₃ q.end_ (hgrows₂ q.end_ hend₁), hbase₃, ?_,
    (visits_count hvisits).trans hcount⟩
  -- every step from the new closed node was visited
  refine rule.mono (fun u v hstep _ => ?_) hinv₃
  by_cases hu : u = item.node
  · subst hu
    exact Or.inr ⟨rfl, mem_around.mpr (Or.inr hstep.2.1)⟩
  · exact Or.inl hu

/-- **The search loop.**  It ends with an outcome, or it cannot count its last round. -/
theorem search_spec (rule : Rule q Inv) (hstart : q.start < q.map.getWidth * q.map.getHeight) :
    ∀ (left : Nat) (order : List Nat) (a : AStar K) (nodes : Nat → PathNode K), Shows q.map a nodes →
    (a.nodes q.end_).generation = a.searchGeneration → Base q order nodes a.openHeap →
    Inv (fun _ _ => True) order nodes a.openHeap → q.end_ ∉ order → a.count = order.length →
    (∃ a', search q.std q.map q.userdata q.heuristic q.getCost q.end_ left a = some a' ∧ Outcome q Inv order left a') ∨
      search q.std q.map q.userdata q.heuristic q.getCost q.end_ left a = none ∧ ¬ Counts q (order.length + left)
  | 0, order, a, nodes, hshows, _, hbase, hinv, hend, hcount => by
    unfold search
    by_cases hlast : int.Represents (a.count + 1)
    · rw [if_pos hlast]
      exact Or.inl ⟨_, rfl, .missed order nodes a.openHeap hbase hinv hend hshows.lastPath (Or.inr rfl)⟩
    · rw [if_neg hlast]
      exact Or.inr ⟨rfl, fun hcounts => hlast (hcount ▸ hcounts order _ hbase.tree hend rfl)⟩
  | left + 1, order, a, nodes, hshows, hgen, hbase, hinv, hend, hcount => by
    have hpop := popOpen_spec q.std (a := { a with count := a.count + 1 })
      ⟨hshows.room, hshows.nodes_eq, hshows.at_cell, hshows.items, hshows.lastPath⟩
    have hcount₁ := popOpen_count q.std { a with count := a.count + 1 }
    unfold search
    generalize ({ a with count := a.count + 1 } : AStar K).popOpen q.std = result at hpop hcount₁ ⊢
    cases hpop with
    | none a₁ hshows₁ hdead =>
      exact Or.inl ⟨a₁, rfl, .missed order nodes a.openHeap hbase hinv hend hshows₁.lastPath (Or.inl hdead)⟩
    | some a₁ item hshows₁ hgrows₁ hpops =>
      simp only
      split
      · rename_i hfound
        exact Or.inl <| found_spec hstart hshows₁ (hgrows₁ q.end_ hgen) hbase hinv hpops hfound (left + 1)
      · rename_i hother
        obtain ⟨a₃, nodes₃, hvisits, hshows₃, hgen₃, hbase₃, hinv₃, hcount₃⟩ :=
          round_spec rule hstart hshows hgen hbase hinv hshows₁ hgrows₁ hpops
        rw [hvisits]
        have hrest := search_spec rule hstart left (item.node :: order) a₃ nodes₃ hshows₃ hgen₃ hbase₃ hinv₃
          (fun hmem => (List.mem_cons.mp hmem).elim (fun heq => hother heq.symm) hend)
          (by rw [hcount₃, hcount₁, hcount, List.length_cons]; rfl)
        rw [List.length_cons, Nat.add_assoc, Nat.add_comm 1] at hrest
        refine hrest.imp_left fun ⟨a', hsearch, houtcome⟩ => ⟨a', hsearch, ?_⟩
        cases houtcome with
        | found order' nodes' heap rest item' hbase' hinv' hpops' hend' hpath hsub hnot hcells =>
          exact .found order' nodes' heap rest item' hbase' hinv' hpops' hend' hpath hsub hnot hcells
        | missed order' nodes' heap hbase' hinv' hend' hpath hwhy =>
          refine .missed order' nodes' heap hbase' hinv' hend' hpath (hwhy.imp_right fun hlen => ?_)
          rw [hlen, List.length_cons]
          omega

end Libws.Core.AStar
