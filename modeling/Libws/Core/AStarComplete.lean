import Libws.Core.AStarPath

/-!
# `findPath` finds a path if there is one

* `Complete` — every open node that was found has an item in the heap with its `f`, and every
  neighbour of a closed node was found;
* `finds_iff_reachable` — with a `maxCount` for all reachable cells, `findPath` returns true if and
  only if the end can be reached.
-/

set_option autoImplicit false

namespace Libws.Core.AStar

open Libws.Heap Libws.Machine Libws.Search Relation

variable {U K : Type}

/-! ## Reachable cells -/

theorem reachable_inMap {map : AbstractMap U} {userdata : U} {start c : Int × Int} (hstart : InMap map start)
    (h : ReflTransGen (Step map userdata) start c) : InMap map c := by
  induction h with
  | refl => exact hstart
  | tail _ hstep => exact hstep.2.1

/-- The cells that can be reached are cells of the map. -/
theorem reachable_finite {map : AbstractMap U} (hnumbered : Numbered map) (userdata : U) {start : Int × Int}
    (hstart : InMap map start) :
    {c | ReflTransGen (Step map userdata) start c}.Finite ∧
      {c | ReflTransGen (Step map userdata) start c}.ncard ≤ map.getWidth * map.getHeight := by
  have hsub : {c | ReflTransGen (Step map userdata) start c} ⊆
      ↑((Finset.range (map.getWidth * map.getHeight)).image (cell map)) := fun c hc => by
    have hin := reachable_inMap hstart hc
    exact Finset.mem_coe.mpr (Finset.mem_image.mpr ⟨index map c, Finset.mem_range.mpr (index_lt hnumbered hin),
      cell_index hnumbered hin⟩)
  have hfin := Finset.finite_toSet ((Finset.range (map.getWidth * map.getHeight)).image (cell map))
  refine ⟨hfin.subset hsub, (Set.ncard_le_ncard hsub hfin).trans ?_⟩
  rw [Set.ncard_coe_finset]
  exact Finset.card_image_le.trans (Finset.card_range _).le

/-- The node of a cell that can be reached can be reached. -/
theorem reachable_node (q : Query U K) (hnumbered : Numbered q.map)
    (hstart : q.start < q.map.getWidth * q.map.getHeight) {c : Int × Int}
    (h : ReflTransGen (AStar.Step q.map q.userdata) (cell q.map q.start) c) :
    ReflTransGen q.Step q.start (index q.map c) := by
  induction h with
  | refl =>
    rw [index_cell hnumbered hstart]
  | tail hreach hstep ih =>
    refine ih.tail ⟨index_lt hnumbered hstep.2.1, ?_⟩
    rw [cell_index hnumbered (reachable_inMap (inMap_cell hstart) hreach), cell_index hnumbered hstep.2.1]
    exact hstep

/-- There are at least as many reachable cells as reachable nodes. -/
theorem reachable_ncard (q : Query U K) (hnumbered : Numbered q.map)
    (hstart : q.start < q.map.getWidth * q.map.getHeight) : {v | ReflTransGen q.Step q.start v}.Finite ∧
      {v | ReflTransGen q.Step q.start v}.ncard ≤
        {c | ReflTransGen (AStar.Step q.map q.userdata) (cell q.map q.start) c}.ncard := by
  have hlt : ∀ v, ReflTransGen q.Step q.start v → v < q.map.getWidth * q.map.getHeight := fun v hv => by
    rcases hv.cases_tail with rfl | ⟨u, -, hstep⟩
    · exact hstart
    · exact hstep.1
  refine ⟨(Set.finite_lt_nat _).subset hlt, Set.ncard_le_ncard_of_injOn (cell q.map) (fun v hv => ?_)
    (fun u _ v _ => cell_inj) (reachable_finite hnumbered q.userdata (inMap_cell hstart)).1⟩
  have hreach : ReflTransGen q.Step q.start v := hv
  exact hreach.lift (cell q.map) fun _ _ hstep => hstep.2

/-- With a `maxCount` for all reachable cells, a search for a free end counts its rounds in `int`. -/
theorem counts_of_reachable {q : Query U K} (hnumbered : Numbered q.map)
    (hstart : q.start < q.map.getWidth * q.map.getHeight) (hend : q.end_ < q.map.getWidth * q.map.getHeight)
    (hfree : q.map.isBlock (cell q.map q.end_).1 (cell q.map q.end_).2 q.userdata = false) {max : Nat}
    (hmax : {c | ReflTransGen (AStar.Step q.map q.userdata) (cell q.map q.start) c}.ncard ≤ max) : Counts q max := by
  intro order parent htree hmissed hlen
  obtain ⟨hfin, hle⟩ := reachable_ncard q hnumbered hstart
  have hreach : ¬ ReflTransGen q.Step q.start q.end_ := fun hreach => by
    have hlt := htree.length_lt hmissed hreach hfin
    omega
  have hcases := hnumbered
  rcases hcases with hsized | ⟨hcells, hwidth, hheight⟩
  · exact Sized.counts q hsized hstart max order parent htree hmissed hlen
  -- the end is not closed, and so no neighbour of it is
  obtain ⟨b, hb, hnear, hne⟩ := exists_neighbour hnumbered hwidth hheight (inMap_cell hend) q.end_
  have hcell : cell q.map (index q.map b) = b := cell_index hnumbered hb
  have hopen : index q.map b ∉ order := fun hmem => by
    refine hreach ((htree.reachable _ hmem).tail ⟨hend, ?_⟩)
    rw [hcell]
    exact ⟨hnear, inMap_cell hend, hfree⟩
  have hnodup : (q.end_ :: index q.map b :: order).Nodup := by
    simp only [List.nodup_cons, List.mem_cons, not_or]
    exact ⟨⟨hne.symm, hmissed⟩, hopen, htree.nodup⟩
  have hsub : q.end_ :: index q.map b :: order ⊆ List.range (q.map.getWidth * q.map.getHeight) := by
    simp only [List.cons_subset, List.mem_range]
    exact ⟨hend, index_lt hnumbered hb, fun v hv => List.mem_range.mpr (closed_lt htree hstart hv)⟩
  have hcount := (List.subperm_of_subset hnodup hsub).length_le
  rw [List.length_range, List.length_cons, List.length_cons, hcells] at hcount
  rw [represents_int]
  omega

/-! ## What the search has found -/

variable [Zero K] [Add K] [LT K] [DecidableLT K] [BEq K]

/-- No node that was found is lost. -/
structure Complete (q : Query U K) (E : Nat → Nat → Prop) (order : List Nat) (nodes : Nat → PathNode K)
    (heap : List (HeapItem K)) : Prop where
  live : ∀ v, v ∉ order → Found q.start (parents nodes) v → ∃ item ∈ heap, item.node = v ∧ item.f = (nodes v).f
  covered : ∀ u ∈ order, ∀ v, q.Step u v → E u v → Found q.start (parents nodes) v
  unseen : ∀ v, parents nodes v = none → (nodes v).g = 0

omit [Zero K] [Add K] [LT K] [DecidableLT K] [BEq K] in
/-- Closing a node changes nothing else of it. -/
theorem close_same (nodes : Nat → PathNode K) (v u : Nat) :
    (close nodes v u).f = (nodes u).f ∧ (close nodes v u).g = (nodes u).g ∧ (close nodes v u).h = (nodes u).h := by
  by_cases hu : u = v
  · subst hu
    simp only [close, Function.update_self, and_self]
  · simp only [close, Function.update_of_ne hu, and_self]

omit [Zero K] [LT K] [DecidableLT K] [BEq K] in
theorem found_reached {start v current w : Nat} {nodes : Nat → PathNode K} {h g : K}
    (hfound : Found start (parents nodes) w) : Found start (parents (reached nodes v current h g)) w := by
  rw [parents_reached]
  by_cases hw : w = v
  · exact Or.inr ⟨current, by rw [hw, Function.update_self]⟩
  · rw [Found, Function.update_of_ne hw]
    exact hfound

omit [Zero K] [Add K] in
/-- A live item is left when one of another node is popped. -/
theorem Pops.keeps {nodes : Nat → PathNode K} {heap rest : List (HeapItem K)} {item other : HeapItem K}
    (h : Pops nodes heap item rest) (hother : other ∈ heap) (hlive : Live nodes other)
    (hne : other.node ≠ item.node) : other ∈ rest := by
  obtain ⟨skipped, hskipped, hperm⟩ := h.skips
  rcases List.mem_append.mp (hperm.mem_iff.mp hother) with hdead | hmem
  · exact absurd hlive (hskipped other hdead)
  · rcases List.mem_cons.mp hmem with rfl | hmem
    · exact absurd rfl hne
    · exact hmem

omit [Add K] in
theorem Complete.settle {q : Query U K} {order : List Nat} {nodes : Nat → PathNode K}
    {heap rest : List (HeapItem K)} {item : HeapItem K} (hself : ∀ v, ((nodes v).f == (nodes v).f) = true)
    (hbase : Base q order nodes heap)
    (h : Complete q (fun _ _ => True) order nodes heap) (hpops : Pops nodes heap item rest) :
    Complete q (fun u _ => u ≠ item.node) (item.node :: order) (close nodes item.node) rest := by
  refine ⟨fun v hv hfound => ?_, fun u hu v hstep hne => ?_, fun v hv => ?_⟩
  · rw [parents_close] at hfound
    rw [List.mem_cons, not_or] at hv
    obtain ⟨other, hother, rfl, hf⟩ := h.live v hv.2 hfound
    have hopen : (nodes other.node).isClosed = false := by
      rw [← Bool.not_eq_true, hbase.closed]
      exact hv.2
    have hlive : Live nodes other := ⟨hopen, by rw [hf]; exact hself other.node⟩
    exact ⟨other, hpops.keeps hother hlive hv.1, rfl, hf.trans (close_same nodes item.node other.node).1.symm⟩
  · rw [parents_close]
    exact h.covered u ((List.mem_cons.mp hu).resolve_left hne) v hstep trivial
  · rw [parents_close] at hv
    exact (close_same nodes item.node v).2.1.trans (h.unseen v hv)

theorem Complete.visit {q : Query U K} {E : Nat → Nat → Prop} {order : List Nat} {current : Nat}
    {nodes nodes' : Nat → PathNode K} {heap heap' : List (HeapItem K)} {c : Int × Int}
    (hzero : ((0 : K) == 0) = true) (hbase : Base q order nodes heap)
    (h : Complete q E order nodes heap) (hvisit : Visit q current nodes heap c nodes' heap') :
    Complete q (fun u v => E u v ∨ u = current ∧ cell q.map v = c) order nodes' heap' := by
  -- the node of the cell is the only one that becomes covered
  have hcovered : (∀ v, q.Step current v → cell q.map v = c → Found q.start (parents nodes) v) →
      Complete q (fun u v => E u v ∨ u = current ∧ cell q.map v = c) order nodes heap := fun hnew => by
    refine ⟨h.live, fun u hu v hstep hE => ?_, h.unseen⟩
    rcases hE with hE | ⟨rfl, hcell⟩
    · exact h.covered u hu v hstep hE
    · exact hnew v hstep hcell
  cases hvisit with
  | outside hstep =>
    refine hcovered fun v hv hcell => absurd ?_ hstep
    rw [← hcell]
    exact hv.2
  | closed w hcell hstep hclosed =>
    refine hcovered fun v hv hcell' => ?_
    rw [cell_inj (hcell'.trans hcell.symm)]
    exact hbase.tree.found w ((hbase.closed w).mp hclosed)
  | keep w hcell hstep hopen hseen hge =>
    refine hcovered fun v hv hcell' => ?_
    rw [cell_inj (hcell'.trans hcell.symm)]
    cases hparent : parents nodes w with
    | none =>
      rw [h.unseen w hparent, hzero] at hseen
      cases hseen
    | some u => exact Or.inr ⟨u, hparent⟩
  | reach w hw hcell hstep hopen hcase =>
    refine ⟨fun v hv hfound => ?_, fun u hu v hstep' hE => ?_, fun v hv => ?_⟩
    · by_cases hvw : v = w
      · subst hvw
        refine ⟨_, (q.std.pushHeap_perm _ _).mem_iff.mpr (List.mem_append_right _ (List.mem_singleton_self _)), rfl, ?_⟩
        simp only [AStar.reached, Function.update_self]
      · rw [parents_reached, Found, Function.update_of_ne hvw] at hfound
        obtain ⟨item, hitem, rfl, hf⟩ := h.live v hv hfound
        refine ⟨item, (q.std.pushHeap_perm _ _).mem_iff.mpr (List.mem_append_left _ hitem), rfl, ?_⟩
        simp only [AStar.reached, Function.update_of_ne hvw]
        exact hf
    · rcases hE with hE | ⟨rfl, hcell'⟩
      · exact found_reached (h.covered u hu v hstep' hE)
      · rw [cell_inj (hcell'.trans hcell.symm), parents_reached]
        exact Or.inr ⟨u, Function.update_self ..⟩
    · rw [parents_reached] at hv
      by_cases hvw : v = w
      · rw [hvw, Function.update_self] at hv
        cases hv
      · rw [Function.update_of_ne hvw] at hv
        simp only [AStar.reached, Function.update_of_ne hvw]
        exact h.unseen v hv

omit [Add K] [LT K] [DecidableLT K] [BEq K] in
theorem Complete.mono {q : Query U K} {E E' : Nat → Nat → Prop} {order : List Nat}
    {nodes : Nat → PathNode K} {heap : List (HeapItem K)} (hE : ∀ u v, q.Step u v → E' u v → E u v)
    (h : Complete q E order nodes heap) : Complete q E' order nodes heap :=
  ⟨h.live, fun u hu v hstep hE' => h.covered u hu v hstep (hE u v hstep hE'), h.unseen⟩

theorem complete_rule [ReflBEq K] (q : Query U K) : Rule q (Complete q) where
  mono := Complete.mono
  settle hbase h hpops := h.settle (fun _ => BEq.rfl) hbase hpops
  visit hbase _ h hvisit := h.visit BEq.rfl hbase hvisit

omit [Add K] [BEq K] in
/-- What holds of the nodes of a search that begins. -/
theorem Complete.init (q : Query U K) (generation : Nat) :
    Complete q (fun _ _ => True) [] (freshNode q.map generation) (q.std.pushHeap HeapItem.comp [⟨0, q.start⟩]) := by
  refine ⟨fun v _ hfound => ?_, fun u hu => absurd hu List.not_mem_nil, fun v _ => rfl⟩
  rcases hfound with rfl | ⟨u, hu⟩
  · exact ⟨_, (q.std.pushHeap_perm _ _).mem_iff.mpr (List.mem_singleton_self _), rfl, rfl⟩
  · cases hu

omit [Add K] [LT K] [DecidableLT K] in
/-- When all items are dead, every node that can be reached is closed. -/
theorem Complete.closed {q : Query U K} {order : List Nat} {nodes : Nat → PathNode K} {heap : List (HeapItem K)}
    (hself : ∀ v, ((nodes v).f == (nodes v).f) = true) (hbase : Base q order nodes heap)
    (h : Complete q (fun _ _ => True) order nodes heap) (hdead : ∀ item ∈ heap, ¬ Live nodes item) {v : Nat}
    (hreach : ReflTransGen q.Step q.start v) : v ∈ order := by
  have hfound : ∀ w, Found q.start (parents nodes) w → w ∈ order := fun w hw => by
    by_contra hopen
    obtain ⟨item, hitem, rfl, hf⟩ := h.live w hopen hw
    rw [← hbase.closed, Bool.not_eq_true] at hopen
    exact hdead item hitem ⟨hopen, by rw [hf]; exact hself item.node⟩
  exact closed_of_reachable (hfound q.start (Or.inl rfl))
    (fun u hu w hstep => hfound w (h.covered u hu w hstep trivial)) hreach

omit [Add K] [LT K] [DecidableLT K] in
/-- A search that has closed all it can, or as many nodes as can be reached, has closed its end. -/
theorem Complete.not_missed [ReflBEq K] {q : Query U K} {order : List Nat} {nodes : Nat → PathNode K}
    {heap : List (HeapItem K)} {max : Nat} (hnumbered : Numbered q.map)
    (hstart : q.start < q.map.getWidth * q.map.getHeight) (hbase : Base q order nodes heap)
    (h : Complete q (fun _ _ => True) order nodes heap) (hend : q.end_ ∉ order)
    (hwhy : (∀ item ∈ heap, ¬ Live nodes item) ∨ order.length = max)
    (hmax : {c | ReflTransGen (AStar.Step q.map q.userdata) (cell q.map q.start) c}.ncard ≤ max) :
    ¬ ReflTransGen q.Step q.start q.end_ := by
  intro hreach
  obtain ⟨hfin, hle⟩ := reachable_ncard q hnumbered hstart
  rcases hwhy with hdead | hlen
  · exact hend (h.closed (fun _ => BEq.rfl) hbase hdead hreach)
  · have hlt := hbase.tree.length_lt hend hreach hfin
    omega

section LinearOrder

variable {U K : Type} [LinearOrder K] [Zero K] [Add K] [NatCast K] [OfScientific K]

/-- **`findPath` is complete.**  After any calls, and with a `maxCount` of at least the number of cells
that can be reached, `findPath` returns true if and only if the end is free and can be reached. -/
theorem finds_iff_reachable (std : HeapAlgorithms) (max : Int) (history : List (Call U K)) (a : AStar K)
    (out : List (Option Bool)) (hrun : runOps (step std) (AStar.new max) history = some (a, out))
    (map : AbstractMap U) (hnumbered : Numbered map) (userdata : U) (start end_ : Int × Int)
    (hstart : InMap map start) (hend : InMap map end_) (hne : start ≠ end_)
    (hmax : ({c | ReflTransGen (Step map userdata) start c}.ncard : Int) ≤ a.maxCount) :
    ∃ a' found, a.findPath std map start.1 start.2 end_.1 end_.2 userdata = some (a', found) ∧
      (found = true ↔
        map.isBlock end_.1 end_.2 userdata = false ∧ ReflTransGen (Step map userdata) start end_) := by
  cases hblock : map.isBlock end_.1 end_.2 userdata with
  | true => exact ⟨_, false, findPath_blocked std a hne hblock, by simp⟩
  | false =>
    have hcounts : Counts (query std map a start end_ userdata) a.maxCount.toNat := by
      refine counts_of_reachable hnumbered (index_lt hnumbered hstart) (index_lt hnumbered hend) ?_ ?_
      · simp only [query, cell_index hnumbered hend]
        exact hblock
      · simp only [query, cell_index hnumbered hstart]
        omega
    obtain ⟨a', hfind, houtcome⟩ := findPath_returns std hnumbered (fresh_of_calls hrun) hstart hend hne userdata
      hblock hcounts (complete_rule (query std map a start end_ userdata))
      (Complete.init (query std map a start end_ userdata))
    refine ⟨a', _, hfind, ?_⟩
    cases houtcome with
    | found order nodes heap rest item hbase hinv hpops hitem hpath hsub hnot hcells =>
      obtain ⟨hmap, hwalk⟩ := path_of_links hbase.tree hpath hcells
      simp only [query, cell_index hnumbered hstart, cell_index hnumbered hend] at hwalk
      have hnonempty : a'.lastPath.isEmpty = false := by
        rw [List.isEmpty_eq_false_iff]
        intro hnil
        rw [hmap, hnil] at hwalk
        exact hne hwalk
      rw [hnonempty]
      exact ⟨fun _ => ⟨rfl, hwalk.reachable⟩, fun _ => rfl⟩
    | missed order nodes heap hbase hinv hmissed hpath hwhy =>
      rw [hpath]
      refine ⟨fun hfound => absurd hfound (by decide), ?_⟩
      rintro ⟨-, hreach⟩
      rw [← cell_index hnumbered hstart] at hreach hmax
      have hnode := reachable_node (query std map a start end_ userdata) hnumbered (index_lt hnumbered hstart) hreach
      have hwhy' : (∀ item ∈ heap, ¬ Live nodes item) ∨ order.length = a.maxCount.toNat :=
        hwhy.imp_right fun hlen => by rw [hlen, List.length_nil, Nat.zero_add]
      exact absurd hnode (hinv.not_missed hnumbered (index_lt hnumbered hstart) hbase hmissed hwhy'
        (by simp only [query]; omega))

end LinearOrder

end Libws.Core.AStar
