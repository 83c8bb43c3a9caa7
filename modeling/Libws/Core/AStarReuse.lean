import Libws.Core.AStarPath

/-!
# A search on an `AStar` that was used before

Two runs of one search, on an `AStar` of any past and on a new one.

* `Alike` — the nodes of the two runs agree but for their generations;
* `Twin` — the two runs in step, kept by `popOpen` (`popOpen_twin`), by the loops around a cell
  (`visits_twin`), by a round (`round_twin`) and by the whole search (`search_twin`);
* `reuse_leaks_nothing` — `findPath` finds the same in both.
-/

set_option autoImplicit false

namespace Libws.Core.AStar

open Libws.Heap Libws.Machine Libws.Search

variable {U K : Type}

/-! ## Nodes but for their generations -/

/-- All that a search reads of one of its nodes. -/
def undated (node : PathNode K) : PathNode K := { node with generation := 0 }

def Alike (nodes twin : Nat → PathNode K) : Prop := ∀ v, undated (nodes v) = undated (twin v)

theorem Alike.g {nodes twin : Nat → PathNode K} (h : Alike nodes twin) (v : Nat) : (nodes v).g = (twin v).g := by
  show (undated (nodes v)).g = (undated (twin v)).g
  rw [h v]

theorem Alike.h {nodes twin : Nat → PathNode K} (h : Alike nodes twin) (v : Nat) : (nodes v).h = (twin v).h := by
  show (undated (nodes v)).h = (undated (twin v)).h
  rw [h v]

theorem Alike.f {nodes twin : Nat → PathNode K} (h : Alike nodes twin) (v : Nat) : (nodes v).f = (twin v).f := by
  show (undated (nodes v)).f = (undated (twin v)).f
  rw [h v]

theorem Alike.isClosed {nodes twin : Nat → PathNode K} (h : Alike nodes twin) (v : Nat) :
    (nodes v).isClosed = (twin v).isClosed := by
  show (undated (nodes v)).isClosed = (undated (twin v)).isClosed
  rw [h v]

theorem Alike.parents {nodes twin : Nat → PathNode K} (h : Alike nodes twin) : parents nodes = parents twin := by
  funext v
  show (undated (nodes v)).parent = (undated (twin v)).parent
  rw [h v]

theorem Alike.update {nodes twin : Nat → PathNode K} (h : Alike nodes twin) (v : Nat) {value value' : PathNode K}
    (hvalue : undated value = undated value') :
    Alike (Function.update nodes v value) (Function.update twin v value') := by
  intro u
  by_cases hu : u = v
  · subst hu
    rw [Function.update_self, Function.update_self]
    exact hvalue
  · rw [Function.update_of_ne hu, Function.update_of_ne hu]
    exact h u

theorem Alike.close {nodes twin : Nat → PathNode K} (h : Alike nodes twin) (v : Nat) :
    Alike (close nodes v) (close twin v) :=
  h.update v (congrArg (fun node : PathNode K => { node with isClosed := true }) (h v))

theorem Alike.reached [Add K] {nodes twin : Nat → PathNode K} (h : Alike nodes twin) (v current : Nat) (hv g : K) :
    Alike (reached nodes v current hv g) (reached twin v current hv g) :=
  h.update v
    (congrArg (fun node : PathNode K => { node with h := hv, g := g, f := g + hv, parent := some current }) (h v))

variable [Zero K] [Add K] [LT K] [DecidableLT K] [BEq K]

/-- A visit sees nothing of the generations. -/
theorem Visit.alike {q : Query U K} {current : Nat} {nodes nodes' twin : Nat → PathNode K}
    {heap heap' : List (HeapItem K)} {c : Int × Int} (h : Visit q current nodes heap c nodes' heap')
    (halike : Alike nodes twin) : ∃ twin', Visit q current twin heap c twin' heap' ∧ Alike nodes' twin' := by
  cases h with
  | outside hstep => exact ⟨twin, .outside hstep, halike⟩
  | closed v hcell hstep hclosed =>
    rw [halike.isClosed] at hclosed
    exact ⟨twin, .closed v hcell hstep hclosed, halike⟩
  | keep v hcell hstep hopen hseen hge =>
    rw [halike.isClosed] at hopen
    rw [halike.g] at hseen
    rw [halike.g, halike.g v] at hge
    exact ⟨twin, .keep v hcell hstep hopen hseen hge, halike⟩
  | reach v hv hcell hstep hopen hcase =>
    rw [halike.isClosed] at hopen
    rw [halike.g current, halike.g v, halike.h] at hcase
    rw [halike.g current]
    exact ⟨_, .reach v hv hcell hstep hopen hcase, halike.reached v current hv _⟩

/-- A visit has only one outcome. -/
theorem Visit.unique {q : Query U K} {current : Nat} {nodes nodes' nodes'' : Nat → PathNode K}
    {heap heap' heap'' : List (HeapItem K)} {c : Int × Int} (h : Visit q current nodes heap c nodes' heap')
    (h' : Visit q current nodes heap c nodes'' heap'') : nodes' = nodes'' ∧ heap' = heap'' := by
  cases h with
  | outside hstep =>
    cases h' with
    | outside => exact ⟨rfl, rfl⟩
    | closed v hcell hstep' | keep v hcell hstep' | reach v _ hcell hstep' => exact absurd (hcell ▸ hstep'.2) hstep
  | closed v hcell hstep hclosed =>
    cases h' with
    | outside | closed => exact ⟨rfl, rfl⟩
    | keep => exact ⟨rfl, rfl⟩
    | reach u _ hcell' hstep' hopen =>
      obtain rfl := cell_inj (hcell.trans hcell'.symm)
      rw [hclosed] at hopen
      cases hopen
  | keep v hcell hstep hopen hseen hge =>
    cases h' with
    | outside | closed | keep => exact ⟨rfl, rfl⟩
    | reach u _ hcell' hstep' _ hcase =>
      obtain rfl := cell_inj (hcell.trans hcell'.symm)
      rcases hcase with ⟨-, hlt, -⟩ | ⟨hnew, -⟩
      · exact absurd hlt hge
      · rw [hseen] at hnew
        cases hnew
  | reach v hv hcell hstep hopen hcase =>
    cases h' with
    | outside hstep' => exact absurd (hcell ▸ hstep.2) hstep'
    | closed u hcell' hstep' hclosed =>
      obtain rfl := cell_inj (hcell.trans hcell'.symm)
      rw [hclosed] at hopen
      cases hopen
    | keep u hcell' hstep' _ hseen hge =>
      obtain rfl := cell_inj (hcell.trans hcell'.symm)
      rcases hcase with ⟨-, hlt, -⟩ | ⟨hnew, -⟩
      · exact absurd hlt hge
      · rw [hseen] at hnew
        cases hnew
    | reach u hu hcell' hstep' _ hcase' =>
      obtain rfl := cell_inj (hcell.trans hcell'.symm)
      have heq : hv = hu := by
        rcases hcase with ⟨hseen, -, rfl⟩ | ⟨hnew, rfl⟩ <;> rcases hcase' with ⟨hseen', -, rfl⟩ | ⟨hnew', rfl⟩
        · rfl
        · rw [hseen] at hnew'
          cases hnew'
        · rw [hnew] at hseen'
          cases hseen'
        · rfl
      rw [heq]
      exact ⟨rfl, rfl⟩

/-! ## Two searches in step -/

/-- Two searches for the end of `q`, with the same heap. -/
structure Twin (q : Query U K) (nodes twin : Nat → PathNode K) (a b : AStar K) : Prop where
  left : Shows q.map a nodes
  right : Shows q.map b twin
  alike : Alike nodes twin
  heap : a.openHeap = b.openHeap
  leftEnd : (a.nodes q.end_).generation = a.searchGeneration
  rightEnd : (b.nodes q.end_).generation = b.searchGeneration

/-- **The two loops around a cell**, in both searches. -/
theorem visits_twin {q : Query U K} {order : List Nat} {current : Nat} (hcurrent : current ∈ order) :
    ∀ (cells : List (Int × Int)) (a b : AStar K) (nodes twin : Nat → PathNode K),
    (∀ c ∈ cells, c ∈ around (cell q.map current).1 (cell q.map current).2) → Twin q nodes twin a b →
    (a.nodes current).generation = a.searchGeneration → (b.nodes current).generation = b.searchGeneration →
    Base q order nodes a.openHeap →
    ∃ a' b' nodes' twin', cells.foldlM (visit q.std q.map q.userdata q.heuristic q.getCost current q.end_) a =
      some a' ∧
      cells.foldlM (visit q.std q.map q.userdata q.heuristic q.getCost current q.end_) b = some b' ∧
      Twin q nodes' twin' a' b' ∧ Base q order nodes' a'.openHeap
  | [], a, b, nodes, twin, _, htwin, _, _, hbase => ⟨a, b, nodes, twin, rfl, rfl, htwin, hbase⟩
  | c :: cells, a, b, nodes, twin, hcells, htwin, hgen, hgen', hbase => by
    have hc := hcells c (List.mem_cons_self ..)
    obtain ⟨a₁, nodes₁, hvisit, hshows, hcase, hgrows⟩ := visit_spec htwin.left hgen htwin.leftEnd hc
    obtain ⟨b₁, twin₁, hvisit', hshows', hcase', hgrows'⟩ := visit_spec htwin.right hgen' htwin.rightEnd hc
    obtain ⟨twin₂, hcase₂, halike⟩ := hcase.alike htwin.alike
    rw [htwin.heap] at hcase₂
    obtain ⟨rfl, hheap⟩ := hcase₂.unique hcase'
    obtain ⟨a', b', nodes', twin', hrest, hrest', htwin', hbase'⟩ := visits_twin hcurrent cells a₁ b₁ nodes₁ twin₂
      (fun c' hc' => hcells c' (List.mem_cons_of_mem c hc'))
      ⟨hshows, hshows', halike, hheap, hgrows q.end_ htwin.leftEnd, hgrows' q.end_ htwin.rightEnd⟩
      (hgrows current hgen) (hgrows' current hgen') (hbase.visit hcurrent hcase)
    refine ⟨a', b', nodes', twin', ?_, ?_, htwin', hbase'⟩
    · rw [List.foldlM_cons, hvisit]
      exact hrest
    · rw [List.foldlM_cons, hvisit']
      exact hrest'

omit [Add K] [LT K] [DecidableLT K] [BEq K] in
/-- Items taken out of both heaps. -/
theorem Twin.shrink {q : Query U K} {nodes twin : Nat → PathNode K} {a b : AStar K} (h : Twin q nodes twin a b)
    {heap : List (HeapItem K)} (hsub : heap ⊆ a.openHeap) :
    Twin q nodes twin { a with openHeap := heap } { b with openHeap := heap } where
  left := h.left.shrink fun _ hitem => hsub hitem
  right := h.right.shrink fun _ hitem => h.heap ▸ hsub hitem
  alike := h.alike
  heap := rfl
  leftEnd := h.leftEnd
  rightEnd := h.rightEnd

omit [Add K] [LT K] [DecidableLT K] in
/-- Both searches skip the same items: only `isClosed` and `f` of their nodes count. -/
theorem Twin.upToDate_eq {q : Query U K} {nodes twin : Nat → PathNode K} {a b : AStar K} (h : Twin q nodes twin a b)
    {item : HeapItem K} (hitem : item ∈ a.openHeap) : upToDate a item = upToDate b item := by
  rw [Bool.eq_iff_iff, ← h.left.live_iff hitem, ← h.right.live_iff (h.heap ▸ hitem), Live, Live, h.alike.isClosed,
    h.alike.f]

omit [Add K] in
/-- `popOpen` takes the same node in both searches. -/
theorem popOpen_twin {q : Query U K} {nodes twin : Nat → PathNode K} {a b : AStar K} (h : Twin q nodes twin a b) :
    ∃ a' b' found, a.popOpen q.std = (a', found) ∧ b.popOpen q.std = (b', found) ∧ Twin q nodes twin a' b' ∧
      Grows b b' := by
  have hsame := q.std.popUntil_congr HeapItem.comp (fun item hitem => h.upToDate_eq hitem) a.openHeap.length
  rw [popOpen_eq, popOpen_eq, ← h.heap, ← hsame]
  exact ⟨_, _, _, rfl, rfl, h.shrink (q.std.popUntil_subset ..), fun _ hv => hv⟩

omit [Add K] [LT K] [DecidableLT K] [BEq K] in
/-- Both searches close the node that they popped. -/
theorem Twin.settle {q : Query U K} {nodes twin : Nat → PathNode K} {a b : AStar K} (h : Twin q nodes twin a b)
    {v : Nat} (hleft : (a.nodes v).generation = a.searchGeneration)
    (hright : (b.nodes v).generation = b.searchGeneration) :
    Twin q (close nodes v) (close twin v) (a.setNode v { a.nodes v with isClosed := true })
      (b.setNode v { b.nodes v with isClosed := true }) where
  left := by
    have hset := h.left.setNode v { a.nodes v with isClosed := true } hleft
      (by rw [h.left.current hleft]; exact h.left.at_cell v)
    rw [h.left.current hleft, ← close] at hset
    rw [h.left.current hleft]
    exact hset
  right := by
    have hset := h.right.setNode v { b.nodes v with isClosed := true } hright
      (by rw [h.right.current hright]; exact h.right.at_cell v)
    rw [h.right.current hright, ← close] at hset
    rw [h.right.current hright]
    exact hset
  alike := h.alike.close v
  heap := h.heap
  leftEnd := setNode_grows a v { a.nodes v with isClosed := true } hleft q.end_ h.leftEnd
  rightEnd := setNode_grows b v { b.nodes v with isClosed := true } hright q.end_ h.rightEnd

omit [Add K] in
/-- Both searches write down the same path to their end. -/
theorem found_twin {q : Query U K} {order : List Nat} {nodes twin : Nat → PathNode K} {a b : AStar K}
    {heap : List (HeapItem K)} {item : HeapItem K} (hstart : q.start < q.map.getWidth * q.map.getHeight)
    (h : Twin q nodes twin a b) (hbase : Base q order nodes heap) (hpops : Pops nodes heap item a.openHeap)
    (hend : item.node = q.end_) :
    ∃ a' b', a.walk (a.mapNodes * NUM_NODE_SIZE + 1) q.end_ = some a' ∧
      b.walk (b.mapNodes * NUM_NODE_SIZE + 1) q.end_ = some b' ∧ a'.path = b'.path := by
  obtain ⟨-, htree⟩ := hbase.pops hpops
  rw [hend] at htree
  have hclosed : ∀ v, (twin v).isClosed = true ↔ v ∈ order := fun v => by
    rw [← h.alike.isClosed]
    exact hbase.closed v
  obtain ⟨p, hclimb, hwalk, -, -, -, hcells⟩ := walk_found hstart h.left h.leftEnd hbase.closed htree
  obtain ⟨p', hclimb', hwalk', -, -, -, hcells'⟩ :=
    walk_found hstart h.right h.rightEnd hclosed (h.alike.parents ▸ htree)
  rw [← h.alike.parents] at hclimb'
  obtain rfl := climb_unique _ _ _ _ _ _ hclimb hclimb'
  refine ⟨_, _, hwalk, hwalk', ?_⟩
  simp only [path]
  exact List.map_congr_left fun v hv => (hcells v hv).trans (hcells' v hv).symm

omit [Add K] [LT K] [DecidableLT K] [BEq K] in
/-- What is counted matters to neither search. -/
theorem Twin.recount {q : Query U K} {nodes twin : Nat → PathNode K} {a b : AStar K} (h : Twin q nodes twin a b)
    (count count' : Int) : Twin q nodes twin { a with count := count } { b with count := count' } :=
  ⟨⟨h.left.room, h.left.nodes_eq, h.left.at_cell, h.left.items, h.left.lastPath⟩,
    ⟨h.right.room, h.right.nodes_eq, h.right.at_cell, h.right.items, h.right.lastPath⟩,
    h.alike, h.heap, h.leftEnd, h.rightEnd⟩

/-- **A round**, in both searches. -/
theorem round_twin {q : Query U K} (hstart : q.start < q.map.getWidth * q.map.getHeight) {order : List Nat}
    {a b a₁ b₁ : AStar K} {nodes twin : Nat → PathNode K} {item : HeapItem K} (h : Twin q nodes twin a b)
    (hbase : Base q order nodes a.openHeap) (h₁ : Twin q nodes twin a₁ b₁) (hgrows : Grows a a₁) (hgrows' : Grows b b₁)
    (hpops : Pops nodes a.openHeap item a₁.openHeap) :
    ∃ a' b' nodes' twin', visitColumns q.std q.map q.userdata q.heuristic q.getCost item.node q.end_
        (a₁.setNode item.node { a₁.nodes item.node with isClosed := true }) = some a' ∧
      visitColumns q.std q.map q.userdata q.heuristic q.getCost item.node q.end_
        (b₁.setNode item.node { b₁.nodes item.node with isClosed := true }) = some b' ∧
      Twin q nodes' twin' a' b' ∧ Base q (item.node :: order) nodes' a'.openHeap ∧
      a'.count = a₁.count ∧ b'.count = b₁.count := by
  have hmem := hpops.mem.1
  have hleft : (a₁.nodes item.node).generation = a₁.searchGeneration :=
    hgrows item.node (h.left.items item hmem)
  have hright : (b₁.nodes item.node).generation = b₁.searchGeneration :=
    hgrows' item.node (h.right.items item (h.heap ▸ hmem))
  have h₂ := h₁.settle hleft hright
  have hleft₂ := setNode_grows a₁ item.node { a₁.nodes item.node with isClosed := true } hleft _ hleft
  have hright₂ := setNode_grows b₁ item.node { b₁.nodes item.node with isClosed := true } hright _ hright
  have hbase₂ : Base q (item.node :: order) (close nodes item.node)
      (a₁.setNode item.node { a₁.nodes item.node with isClosed := true }).openHeap := hbase.settle hpops
  have hcountA : (a₁.setNode item.node { a₁.nodes item.node with isClosed := true }).count = a₁.count := rfl
  have hcountB : (b₁.setNode item.node { b₁.nodes item.node with isClosed := true }).count = b₁.count := rfl
  generalize a₁.setNode item.node { a₁.nodes item.node with isClosed := true } = a₂
    at h₂ hleft₂ hbase₂ hcountA ⊢
  generalize b₁.setNode item.node { b₁.nodes item.node with isClosed := true } = b₂ at h₂ hright₂ hcountB ⊢
  obtain ⟨a₃, b₃, nodes₃, twin₃, hvisits, hvisits', h₃, hbase₃⟩ := visits_twin (List.mem_cons_self ..) _ a₂ b₂
    _ _ (fun c hc => hc) h₂ hleft₂ hright₂ hbase₂
  have hin := closed_lt hbase₂.tree hstart (List.mem_cons_self ..)
  rw [visitColumns_spec hin h₂.left hleft₂ h₂.leftEnd, visitColumns_spec hin h₂.right hright₂ h₂.rightEnd, hvisits,
    hvisits']
  exact ⟨a₃, b₃, nodes₃, twin₃, rfl, rfl, h₃, hbase₃, (visits_count hvisits).trans hcountA,
    (visits_count hvisits').trans hcountB⟩

/-- **The search loop**, in both searches. -/
theorem search_twin {q : Query U K} (hsized : Sized q.map) (hstart : q.start < q.map.getWidth * q.map.getHeight) :
    ∀ (left : Nat) (order : List Nat) (a b : AStar K) (nodes twin : Nat → PathNode K), Twin q nodes twin a b →
    Base q order nodes a.openHeap → a.count = order.length → b.count = order.length →
    ∃ a' b', search q.std q.map q.userdata q.heuristic q.getCost q.end_ left a = some a' ∧
      search q.std q.map q.userdata q.heuristic q.getCost q.end_ left b = some b' ∧ a'.path = b'.path
  | 0, order, a, b, nodes, twin, htwin, hbase, hcountA, hcountB => by
    have hcount := hsized.count_represents hstart hbase.tree
    refine ⟨_, _, if_pos (hcountA ▸ hcount), if_pos (hcountB ▸ hcount), ?_⟩
    simp only [path, htwin.left.lastPath, htwin.right.lastPath, List.map_nil]
  | left + 1, order, a, b, nodes, twin, htwin, hbase, hcountA, hcountB => by
    have hcount := htwin.recount (a.count + 1) (b.count + 1)
    obtain ⟨a₁, b₁, found, hpop, hpop', htwin₁, hgrows'⟩ := popOpen_twin hcount
    have hspec := popOpen_spec q.std hcount.left
    have hcountA₁ := popOpen_count q.std { a with count := a.count + 1 }
    have hcountB₁ := popOpen_count q.std { b with count := b.count + 1 }
    unfold search
    rw [hpop] at hspec hcountA₁ ⊢
    rw [hpop'] at hcountB₁ ⊢
    cases hspec with
    | none a' hshows =>
      refine ⟨a₁, b₁, rfl, rfl, ?_⟩
      simp only [path, htwin₁.left.lastPath, htwin₁.right.lastPath, List.map_nil]
    | some a' item hshows hgrows hpops =>
      simp only
      split
      · rename_i hfound
        rw [hfound]
        exact found_twin hstart htwin₁ hbase hpops hfound
      · obtain ⟨a₃, b₃, nodes₃, twin₃, hvisits, hvisits', htwin₃, hbase₃, hcountA₃, hcountB₃⟩ :=
          round_twin hstart hcount hbase htwin₁ hgrows hgrows' hpops
        rw [hvisits, hvisits']
        refine search_twin hsized hstart left _ a₃ b₃ nodes₃ twin₃ htwin₃ hbase₃ ?_ ?_
        · rw [hcountA₃, hcountA₁, hcountA, List.length_cons]
          rfl
        · rw [hcountB₃, hcountB₁, hcountB, List.length_cons]
          rfl

/-! ## `findPath` -/

variable [NatCast K] [OfScientific K]

theorem findPath_at_end (std : HeapAlgorithms) (map : AbstractMap U) (a : AStar K)
    (start : Int × Int) (userdata : U) : a.findPath std map start.1 start.2 start.1 start.2 userdata =
      some ({ a with lastPath := [], openHeap := [] }, true) := by
  unfold findPath
  exact if_pos ⟨rfl, rfl⟩

omit [Zero K] [Add K] [LT K] [DecidableLT K] [BEq K] [NatCast K] [OfScientific K] in
theorem isEmpty_path (a : AStar K) : a.path.isEmpty = a.lastPath.isEmpty := List.isEmpty_map

/-- **A reused `AStar` leaks nothing.**  After any calls, `findPath` between two cells of the map
returns what it returns on a new `AStar`, with the same cells in `lastPath`. -/
theorem reuse_leaks_nothing (std : HeapAlgorithms) (max : Int) (history : List (Call U K)) (a : AStar K)
    (out : List (Option Bool)) (hrun : runOps (step std) (AStar.new max) history = some (a, out))
    (heuristic getCost : Option (Int → Int → Int → Int → K))
    (hheuristic : heuristic.getD manhattanDistance = a.heuristic.getD manhattanDistance)
    (hgetCost : getCost.getD commonCost = a.getCost.getD commonCost) (map : AbstractMap U) (hsized : Sized map)
    (userdata : U) (start end_ : Int × Int) (hstart : InMap map start) (hend : InMap map end_) :
    ∃ a' b' found, a.findPath std map start.1 start.2 end_.1 end_.2 userdata = some (a', found) ∧
      ({ AStar.new a.maxCount with heuristic := heuristic, getCost := getCost } : AStar K).findPath std map
        start.1 start.2 end_.1 end_.2 userdata = some (b', found) ∧ a'.path = b'.path := by
  by_cases hne : start = end_
  · subst hne
    exact ⟨_, _, true, findPath_at_end std map a start userdata, findPath_at_end std map _ start userdata, rfl⟩
  cases hblock : map.isBlock end_.1 end_.2 userdata with
  | true => exact ⟨_, _, false, findPath_blocked std _ hne hblock, findPath_blocked std _ hne hblock, rfl⟩
  | false =>
    have hempty := Fresh.new (K := K) a.maxCount
    have hnew : Fresh ({ AStar.new a.maxCount with heuristic := heuristic, getCost := getCost } : AStar K) :=
      ⟨hempty.generation, hempty.nodes⟩
    obtain ⟨a₀, generation, hshows, hgen, hheap, hcount, hfind⟩ :=
      findPath_begin std hsized.numbered (fresh_of_calls hrun) hstart hend hne userdata hblock
    obtain ⟨b₀, generation', hshows', hgen', hheap', hcount', hfind'⟩ :=
      findPath_begin std hsized.numbered hnew hstart hend hne userdata hblock
    have htwin : Twin (query std map a start end_ userdata) (freshNode map generation) (freshNode map generation')
        a₀ b₀ := ⟨hshows, hshows', fun v => rfl, hheap.trans hheap'.symm, hgen, hgen'⟩
    obtain ⟨a', b', hsearch, hsearch', hpath⟩ :=
      search_twin hsized (index_lt hsized.numbered hstart) a.maxCount.toNat [] a₀ b₀ _ _ htwin
        (hheap ▸ Base.init _ _) hcount hcount'
    have hfound : b'.lastPath.isEmpty = a'.lastPath.isEmpty := by rw [← isEmpty_path, ← hpath, isEmpty_path]
    simp only [query] at hsearch hsearch'
    refine ⟨{ a' with openHeap := [] }, { b' with openHeap := [] }, !a'.lastPath.isEmpty, ?_, ?_, hpath⟩
    · rw [hfind, hsearch]
      rfl
    · rw [hfind', hheuristic, hgetCost]
      simp only [AStar.new]
      rw [hsearch', ← hfound]
      rfl

end Libws.Core.AStar
