import Libws.Core.AStarOutside

/-!
# What a search from outside the map comes to

* `Explored` — every node that was found and is open has an item in the heap, and what is beside a
  closed node was found;
* `search_explored` — a search whose end can be reached finds it, if it has the rounds for it;
* `outside_start_fails_iff` — when `findPath` fails on a start outside the map.
-/

set_option autoImplicit false

namespace Libws.Core.AStar

open Libws.Heap Libws.Integer Libws.Loop Libws.Machine Relation

variable {U K : Type} [Zero K] [Add K] [LT K] [DecidableLT K] [BEq K]

/-- A search that has closed the nodes `order`, and has taken all steps from them that are in `E`. -/
structure Explored (q : Query U K) (start : Int × Int) (E : Int × Int → Int × Int → Prop) (order : List Nat)
    (a : AStar K) : Prop where
  live : ∀ v, Known q.start a v → (a.nodes v).isClosed = false →
    ∃ item ∈ a.openHeap, item.node = v ∧ item.f = (a.nodes v).f
  covered : ∀ b c, index q.map b ∈ order → ReflTransGen (Passes q.map q.userdata start) start b →
    Passes q.map q.userdata start b c → E b c → Known q.start a (index q.map c)
  unseen : ∀ v, (a.nodes v).generation = a.searchGeneration → (a.nodes v).parent = none → (a.nodes v).g = 0
  closed : ∀ v, v ∈ order ↔ (a.nodes v).generation = a.searchGeneration ∧ (a.nodes v).isClosed = true
  known : ∀ v ∈ order, Known q.start a v
  nodup : order.Nodup

variable {q : Query U K} {current : Nat} {start end_ : Int × Int} {a a' : AStar K} {c : Int × Int}
  {E : Int × Int → Int × Int → Prop} {order : List Nat}

/-! ## One visit -/

omit [Add K] [LT K] [DecidableLT K] [BEq K] in
theorem Explored.arrive (hs : (a.nodes q.start).generation = a.searchGeneration) (h : Explored q start E order a)
    (c : Int × Int) : Explored q start E order (arrive q.map a c) := by
  have hknown := fun v => known_arrive (v := v) hs q.map c
  refine ⟨fun v hv hopen => ?_, fun b c' hb hreach hpass hE => (hknown _).mpr (h.covered b c' hb hreach hpass hE),
    fun v hv hparent => ?_, fun v => ?_, fun v hv => (hknown v).mpr (h.known v hv), h.nodup⟩
  · have hold := (hknown v).mp hv
    obtain ⟨x, y, hnode⟩ := arrive_keeps q.map a c hold.1
    rw [hnode] at hopen ⊢
    exact h.live v hold hopen
  · by_cases hold : (a.nodes v).generation = a.searchGeneration
    · obtain ⟨x, y, hnode⟩ := arrive_keeps q.map a c hold
      rw [hnode] at hparent ⊢
      exact h.unseen v hold hparent
    · obtain rfl := ((arrive_own q.map a c v).mp hv).resolve_right hold
      rw [arrive_node, touch, if_pos hold]
  · by_cases hold : (a.nodes v).generation = a.searchGeneration
    · obtain ⟨x, y, hnode⟩ := arrive_keeps q.map a c hold
      rw [h.closed, hnode]
      exact Iff.rfl
    · have hnew : v ∉ order := fun hv => hold ((h.closed v).mp hv).1
      refine ⟨fun hv => absurd hv hnew, ?_⟩
      rintro ⟨hown, hclosed⟩
      obtain rfl := ((arrive_own q.map a c v).mp hown).resolve_right hold
      rw [arrive_node, touch, if_pos hold] at hclosed
      cases hclosed

omit [BEq K] in
/-- A node that is reached gets an item in the heap. -/
theorem Explored.reach (h : Explored q start E order a) (std : HeapAlgorithms) (w : Nat) (n g : K) :
    Explored q start E order (a.reach std w current n g) := by
  have hsame := reach_same std a w current n g
  refine ⟨fun v hv hopen => ?_, fun b c' hb hreach hpass hE => (h.covered b c' hb hreach hpass hE).reach ..,
    fun v hv hparent => ?_, fun v => ?_, fun v hv => (h.known v hv).reach .., h.nodup⟩
  · by_cases hw : v = w
    · subst hw
      exact ⟨⟨g + n, v⟩, (mem_reach_heap ..).mpr (Or.inr rfl), rfl, by rw [reach_node]⟩
    · have hold : Known q.start a v := by
        refine ⟨(hsame v).2.1.symm.trans hv.1, ?_⟩
        have hparent := hv.2
        rw [reach_other std a w current n g hw] at hparent
        exact hparent
      obtain ⟨item, hitem, hnode, hf⟩ := h.live v hold ((hsame v).2.2.symm.trans hopen)
      exact ⟨item, (mem_reach_heap ..).mpr (Or.inl hitem),
        hnode, by rw [reach_other std a w current n g hw]; exact hf⟩
  · by_cases hw : v = w
    · subst hw
      rw [reach_node] at hparent
      cases hparent
    · rw [(hsame v).2.1] at hv
      rw [reach_other std a w current n g hw] at hparent ⊢
      exact h.unseen v hv hparent
  · rw [h.closed, (hsame v).2.1, (hsame v).2.2]
    exact Iff.rfl

/-- After the visit of a cell, its node was found. -/
theorem Explored.turn [ReflBEq K] (hs : (a.nodes q.start).generation = a.searchGeneration)
    (h : Explored q start E order a) (hturn : Turn q current a c a') :
    Explored q start (fun b c' => E b c' ∨ b = place a current ∧ c' = c) order a' := by
  have harrive := h.arrive hs c
  -- a step to `c` is all that can be new
  have hcovers : ∀ {a'}, Explored q start E order a' →
      (Enters q.map q.userdata (place a current) c → Known q.start a' (index q.map c)) →
      Explored q start (fun b c' => E b c' ∨ b = place a current ∧ c' = c) order a' := fun h' hnew => by
    refine ⟨h'.live, fun b c' hb hreach hpass hE => ?_, h'.unseen, h'.closed, h'.known, h'.nodup⟩
    rcases hE with hE | ⟨rfl, rfl⟩
    · exact h'.covered b c' hb hreach hpass hE
    · exact hnew (step_iff.mp hpass.1).1
  cases hturn with
  | skip hskip => exact hcovers h fun henters => absurd henters hskip
  | closed henters hclosed =>
    refine hcovers harrive fun _ => harrive.known _ ((harrive.closed _).mpr ⟨?_, ?_⟩)
    · exact (arrive_own ..).mpr (Or.inl rfl)
    · rw [arrive_node]
      exact hclosed
  | keep henters hopen hseen =>
    refine hcovers harrive fun _ => ⟨(arrive_own ..).mpr (Or.inl rfl), Or.inr fun hparent => ?_⟩
    have hzero := harrive.unseen _ ((arrive_own ..).mpr (Or.inl rfl)) hparent
    rw [arrive_node] at hzero
    rw [hzero, beq_self_eq_true] at hseen
    cases hseen
  | reach n henters hopen =>
    refine hcovers (harrive.reach q.std _ n _) fun _ => ⟨?_, Or.inr ?_⟩
    · rw [(reach_same ..).2.1]
      exact (arrive_own ..).mpr (Or.inl rfl)
    · rw [reach_node]
      exact Option.some_ne_none _

/-! ## The loops -/

omit [Add K] [LT K] [DecidableLT K] [BEq K] in
/-- The steps that count may be fewer. -/
theorem Explored.mono {E' : Int × Int → Int × Int → Prop} (h : Explored q start E order a)
    (hE : ∀ b c, Passes q.map q.userdata start b c → E' b c → E b c) : Explored q start E' order a :=
  ⟨h.live, fun b c hb hreach hpass hE' => h.covered b c hb hreach hpass (hE b c hpass hE'), h.unseen, h.closed, h.known,
    h.nodup⟩

/-- What can be reached is the start, or a cell of the map with another node. -/
theorem passes_cases {map : AbstractMap U} {userdata : U} {b : Int × Int} (hwidth : 1 < map.getWidth)
    (h : ReflTransGen (Passes map userdata start) start b) :
    b = start ∨ InMap map b ∧ index map b ≠ index map start := by
  cases h with
  | refl => exact Or.inl rfl
  | tail _ hpass => exact Or.inr ⟨hpass.1.2.1, hpass.2 hwidth⟩

omit [Zero K] [Add K] [LT K] [DecidableLT K] [BEq K] in
/-- A cell that can be reached and has the node that the loops are around is where this node is. -/
theorem Around.place_eq (hq : Outside q start end_) (hwidth : 1 < q.map.getWidth)
    (h : Around q start end_ current a)
    {b : Int × Int} (hreach : ReflTransGen (Passes q.map q.userdata start) start b) (hb : index q.map b = current) :
    b = place a current := by
  have hat := h.confined.placed current h.known.1
  rcases passes_cases hwidth hreach with rfl | ⟨hin, hne⟩
  · exact (h.origin hwidth (hb.symm.trans hq.startNode.symm)).symm
  · rcases passes_cases hwidth h.reachable with heq | ⟨hin', -⟩
    · rw [heq] at hat
      exact absurd (hb.trans hat.symm) hne
    · rw [← cell_index hq.numbered hin, hb, ← cell_index hq.numbered hin', hat]

/-- The node that the loops are around stays where it is. -/
theorem Around.place_turn (hq : Outside q start end_) (hwidth : 1 < q.map.getWidth)
    (h : Around q start end_ current a)
    (hx : (c.1 - (place a current).1).natAbs ≤ 1) (hy : (c.2 - (place a current).2).natAbs ≤ 1)
    (hturn : Turn q current a c a') : place a' current = place a current := by
  have h' := h.turn hq hx hy hturn
  exact (h'.place_eq hq hwidth h.reachable (h.confined.placed current h.known.1)).symm

/-- The loops around a node go through all cells around it. -/
theorem Explored.visits [ReflBEq K] (hq : Outside q start end_) (hwidth : 1 < q.map.getWidth) {b : Int × Int} :
    ∀ (cells : List (Int × Int)) (E : Int × Int → Int × Int → Prop) (a : AStar K),
    (∀ c ∈ cells, (c.1 - b.1).natAbs ≤ 1 ∧ (c.2 - b.2).natAbs ≤ 1) → Around q start end_ current a →
    place a current = b → Explored q start E order a →
    ∀ a', cells.foldlM (visit q.std q.map q.userdata q.heuristic q.getCost current q.end_) a = some a' →
    Explored q start (fun b' c => E b' c ∨ b' = b ∧ c ∈ cells) order a'
  | [], E, a, _, _, _, h, a', hfold => by
    cases hfold
    exact h.mono fun b' c _ hE => hE.resolve_right fun hnil => absurd hnil.2 List.not_mem_nil
  | c :: cells, E, a, hcells, haround, hb, h, a', hfold => by
    obtain ⟨a₁, hvisit, hrest⟩ := Option.bind_eq_some_iff.mp hfold
    have hturn := turn_of_visit hvisit
    obtain ⟨hx, hy⟩ := hcells c (List.mem_cons_self ..)
    rw [← hb] at hx hy
    have h₁ := h.turn haround.confined.own hturn
    rw [hb] at h₁
    refine (Explored.visits hq hwidth cells _ a₁ (fun c' hc' => hcells c' (List.mem_cons_of_mem c hc'))
      (haround.turn hq hx hy hturn) ((haround.place_turn hq hwidth hx hy hturn).trans hb) h₁ a' hrest).mono ?_
    rintro b' c' - (hE | ⟨rfl, hc'⟩)
    · exact Or.inl (Or.inl hE)
    · rcases List.mem_cons.mp hc' with rfl | hc'
      · exact Or.inl (Or.inr ⟨rfl, rfl⟩)
      · exact Or.inr ⟨rfl, hc'⟩

/-- After the loops around a node, all steps from it were taken. -/
theorem Explored.columns [ReflBEq K] (hq : Outside q start end_) (hwidth : 1 < q.map.getWidth)
    (haround : Around q start end_ current a) (h : Explored q start (fun b _ => b ≠ place a current) order a)
    (hcolumns : visitColumns q.std q.map q.userdata q.heuristic q.getCost current q.end_ a = some a') :
    Explored q start (fun _ _ => True) order a' := by
  have hnear : ∀ c ∈ AStar.around (place a current).1 (place a current).2,
      (c.1 - (place a current).1).natAbs ≤ 1 ∧ (c.2 - (place a current).2).natAbs ≤ 1 := fun c hc => by
    rcases mem_around.mp hc with rfl | hneighbour
    · simp
    · exact hneighbour.2
  have hloops : visitColumns q.std q.map q.userdata q.heuristic q.getCost current q.end_ a =
      (AStar.around (place a current).1 (place a current).2).foldlM
        (visit q.std q.map q.userdata q.heuristic q.getCost current q.end_) a := by
    refine visitColumns_eq (haround.loopsFit hq) (fun a₁ => Around q start end_ current a₁ ∧
      place a₁ current = place a current)
      (fun a₁ h₁ => Prod.ext_iff.mp h₁.2) (fun a₁ a₂ c hc h₁ hvisit => ?_) a ⟨haround, rfl⟩
    have hturn := turn_of_visit hvisit
    obtain ⟨hx, hy⟩ := hnear c hc
    rw [← h₁.2] at hx hy
    exact ⟨h₁.1.turn hq hx hy hturn, (h₁.1.place_turn hq hwidth hx hy hturn).trans h₁.2⟩
  rw [hloops] at hcolumns
  refine (Explored.visits hq hwidth _ _ a hnear haround rfl h a' hcolumns).mono fun b c hpass _ => ?_
  by_cases hb : b = place a current
  · subst hb
    exact Or.inr ⟨rfl, mem_around.mpr (Or.inr hpass.1.1)⟩
  · exact Or.inl hb

/-! ## The rounds -/

omit [Add K] [LT K] [DecidableLT K] [BEq K] in
/-- A node is popped and closed. -/
theorem Explored.close (hq : Outside q start end_) (hwidth : 1 < q.map.getWidth)
    (hconfined : Confined q start end_ a)
    (h : Explored q start (fun _ _ => True) order a) {heap : List (HeapItem K)} {item : HeapItem K}
    (hheap : ∀ other ∈ heap, other ∈ a.openHeap) (hitem : item ∈ a.openHeap)
    (hopen : (a.nodes item.node).isClosed = false)
    (hkeeps : ∀ other ∈ a.openHeap, (a.nodes other.node).generation = a.searchGeneration →
      (a.nodes other.node).isClosed = false → other.f = (a.nodes other.node).f →
      other.node = item.node ∨ other ∈ heap) :
    Explored q start (fun b _ => b ≠ place (({ a with count := a.count + 1, openHeap := heap } : AStar K).setNode
        item.node { a.nodes item.node with isClosed := true }) item.node) (item.node :: order)
      (({ a with count := a.count + 1, openHeap := heap } : AStar K).setNode item.node
        { a.nodes item.node with isClosed := true }) := by
  have haround := hconfined.close hheap hitem hopen
  have hnode := setNode_closed { a with count := a.count + 1, openHeap := heap } item.node
  generalize ha₁ : (({ a with count := a.count + 1, openHeap := heap } : AStar K).setNode item.node
    { a.nodes item.node with isClosed := true }) = a₁ at haround hnode
  have hgeneration : a₁.searchGeneration = a.searchGeneration := by rw [← ha₁]; rfl
  have hrest : a₁.openHeap = heap := by rw [← ha₁]; rfl
  have hknown : ∀ v, Known q.start a₁ v ↔ Known q.start a v := fun v => by
    rw [Known, hnode, hgeneration]
    exact Iff.rfl
  have hnew : item.node ∉ order := fun hmem => by
    rw [((h.closed item.node).mp hmem).2] at hopen
    cases hopen
  refine ⟨fun v hv hunclosed => ?_, fun b c hb hreach hpass hE => ?_, fun v hv hparent => ?_, fun v => ?_,
    fun v hv => ?_, List.nodup_cons.mpr ⟨hnew, h.nodup⟩⟩
  · rw [hnode, Bool.or_eq_false_iff, decide_eq_false_iff_not] at hunclosed
    obtain ⟨other, hother, rfl, hf⟩ := h.live v ((hknown v).mp hv) hunclosed.2
    refine ⟨other, ?_, rfl, by rw [hnode]; exact hf⟩
    rw [hrest]
    exact (hkeeps other hother ((hknown other.node).mp hv).1 hunclosed.2 hf).resolve_left hunclosed.1
  · rw [hknown]
    refine h.covered b c ((List.mem_cons.mp hb).resolve_left fun hcurrent => ?_) hreach hpass trivial
    exact hE (haround.place_eq hq hwidth hreach hcurrent)
  · rw [hnode] at hv hparent ⊢
    exact h.unseen v (hv.trans hgeneration) hparent
  · rw [List.mem_cons, h.closed, hnode, hgeneration, Bool.or_eq_true, decide_eq_true_eq]
    refine ⟨?_, fun hv => hv.2.imp_right fun hclosed => ⟨hv.1, hclosed⟩⟩
    rintro (rfl | ⟨hown, hclosed⟩)
    · exact ⟨(hconfined.items item hitem).1, Or.inl rfl⟩
    · exact ⟨hown, Or.inr hclosed⟩
  · rw [hknown]
    rcases List.mem_cons.mp hv with rfl | hv
    · exact hconfined.items item hitem
    · exact h.known v hv

omit [Add K] [LT K] [DecidableLT K] [BEq K] in
/-- When nothing is left to close, all that can be reached is closed. -/
theorem Explored.closed_of_reachable (hq : Outside q start end_) (hconfined : Confined q start end_ a)
    (h : Explored q start (fun _ _ => True) order a) (hdone : ∀ v, Known q.start a v → (a.nodes v).isClosed = true)
    {b : Int × Int} (hreach : ReflTransGen (Passes q.map q.userdata start) start b) : index q.map b ∈ order := by
  have hclosed : ∀ v, Known q.start a v → v ∈ order := fun v hv => (h.closed v).mpr ⟨hv.1, hdone v hv⟩
  induction hreach with
  | refl =>
    rw [← hq.startNode]
    exact hclosed q.start ⟨hconfined.own, Or.inl rfl⟩
  | tail hreach hpass ih => exact hclosed _ (h.covered _ _ ih hreach hpass trivial)

omit [Add K] [LT K] [DecidableLT K] [BEq K] in
/-- A search that has not closed its end has closed fewer nodes than there are cells to come to. -/
theorem Explored.length_lt (hq : Outside q start end_) (hwidth : 1 < q.map.getWidth)
    (hconfined : Confined q start end_ a) (h : Explored q start E order a) (hend : q.end_ ∉ order)
    (hreach : ReflTransGen (Passes q.map q.userdata start) start end_) :
    order.length < {c | ReflTransGen (Passes q.map q.userdata start) start c}.ncard := by
  have hindex : ∀ v ∈ order, index q.map (if v = q.start then start else place a v) = v := fun v hv => by
    split
    · rename_i hroot
      rw [hroot, hq.startNode]
    · exact hconfined.placed v ((h.closed v).mp hv).1
  have hnodup : (end_ :: order.map fun v => if v = q.start then start else place a v).Nodup := by
    refine List.nodup_cons.mpr ⟨fun hmem => ?_, h.nodup.map_on fun u hu v hv heq => ?_⟩
    · obtain ⟨v, hv, heq⟩ := List.mem_map.mp hmem
      have hv' := hindex v hv
      rw [heq, ← hq.endNode] at hv'
      exact hend (hv' ▸ hv)
    · rw [← hindex u hu, heq, hindex v hv]
  have hsub : ↑(end_ :: order.map fun v => if v = q.start then start else place a v).toFinset ⊆
      {c | ReflTransGen (Passes q.map q.userdata start) start c} := fun c hc => by
    rcases List.mem_cons.mp (List.mem_toFinset.mp (Finset.mem_coe.mp hc)) with rfl | hc
    · exact hreach
    obtain ⟨v, hv, rfl⟩ := List.mem_map.mp hc
    change ReflTransGen (Passes q.map q.userdata start) start _
    split
    · exact .refl
    · rename_i hroot
      exact hconfined.found v (h.known v hv) fun _ => hroot
  have hfinite : {c | ReflTransGen (Passes q.map q.userdata start) start c}.Finite := by
    refine (Finset.finite_toSet (insert start
      ((Finset.range (q.map.getWidth * q.map.getHeight)).image (cell q.map)))).subset fun c hc => ?_
    rw [Finset.mem_coe, Finset.mem_insert, Finset.mem_image]
    exact (passes_cases hwidth hc).imp_right fun hin =>
      ⟨index q.map c, Finset.mem_range.mpr (index_lt hq.numbered hin.1), cell_index hq.numbered hin.1⟩
  have hcard := Set.ncard_le_ncard hsub hfinite
  rw [Set.ncard_coe_finset, List.toFinset_card_of_nodup hnodup, List.length_cons, List.length_map] at hcard
  exact hcard

omit [Zero K] [Add K] [LT K] [DecidableLT K] [BEq K] in
/-- `walk` from a node that has a parent writes down a path. -/
theorem walk_ne_nil {left : Nat} (hparent : (a.nodes current).parent ≠ none)
    (hwalk : a.walk left current = some a') : a'.lastPath ≠ [] := by
  cases left with
  | zero => cases hwalk
  | succ left =>
    unfold walk at hwalk
    cases hlink : (a.nodes current).parent with
    | none => exact absurd hlink hparent
    | some parent =>
      rw [hlink] at hwalk
      obtain ⟨path, rfl⟩ := walk_lastPath left parent hwalk
      simp

/-- **A search whose end can be reached** finds it, with a round for every cell that can be reached. -/
theorem search_explored [ReflBEq K] (hq : Outside q start end_) (hwidth : 1 < q.map.getWidth)
    (hne : q.end_ ≠ q.start) (hreach : ReflTransGen (Passes q.map q.userdata start) start end_) :
    ∀ (left : Nat) (a : AStar K) (order : List Nat) (a' : AStar K), Confined q start end_ a →
    Explored q start (fun _ _ => True) order a → a.count = order.length → q.end_ ∉ order →
    {c | ReflTransGen (Passes q.map q.userdata start) start c}.ncard ≤ order.length + left →
    search q.std q.map q.userdata q.heuristic q.getCost q.end_ left a = some a' → a'.lastPath ≠ []
  | 0, a, order, a', hconfined, h, _, hend, hmax, _ => by
    have hlt := h.length_lt hq hwidth hconfined hend hreach
    omega
  | left + 1, a, order, a', hconfined, h, hcount, hend, hmax, hsearch => by
    obtain ⟨heap, hstate, hheap, hnode⟩ := popOpen_heap q.std { a with count := a.count + 1 }
    have hkeeps : ∀ item ∈ a.openHeap, (a.nodes item.node).generation = a.searchGeneration →
        (a.nodes item.node).isClosed = false → item.f = (a.nodes item.node).f →
        ∃ v, (({ a with count := a.count + 1 } : AStar K).popOpen q.std).2 = some v ∧
          (item.node = v ∨ item ∈ heap) := fun item hitem hown hopen hf => by
      obtain ⟨v, hpopped, hcase⟩ := popOpen_keeps q.std { a with count := a.count + 1 } hitem hown hopen
        (by rw [hf]; exact beq_self_eq_true _)
      rw [hstate] at hcase
      exact ⟨v, hpopped, hcase⟩
    unfold search at hsearch
    cases hpop : ({ a with count := a.count + 1 } : AStar K).popOpen q.std with
    | mk a₁ found =>
      rw [hpop] at hstate hnode hsearch hkeeps
      simp only at hstate hnode hsearch hkeeps
      subst hstate
      cases found with
      | none =>
        -- nothing is left to close, and so the end is closed
        refine absurd ?_ hend
        rw [hq.endNode]
        refine h.closed_of_reachable hq hconfined (fun v hv => ?_) hreach
        rw [← Bool.not_eq_false]
        intro hopen
        obtain ⟨item, hitem, rfl, hf⟩ := h.live v hv hopen
        obtain ⟨v, hpopped, -⟩ := hkeeps item hitem hv.1 hopen hf
        cases hpopped
      | some current =>
        obtain ⟨⟨item, hitem, rfl⟩, hown, hopen⟩ := hnode current rfl
        simp only at hsearch
        split at hsearch
        · rename_i hfound
          refine walk_ne_nil ?_ hsearch
          exact (hconfined.items item hitem).2.resolve_left fun hroot => hne (hfound.symm.trans hroot)
        rename_i hother
        have haround := hconfined.close hheap hitem hopen
        have hclose := h.close hq hwidth hconfined hheap hitem hopen fun other hother hown hopen hf => by
          obtain ⟨v, hpopped, hcase⟩ := hkeeps other hother hown hopen hf
          obtain rfl := Option.some.inj hpopped
          exact hcase
        have hrounds : Rounds q.start order a :=
          ⟨h.nodup, fun v hv => ⟨h.known v hv, ((h.closed v).mp hv).2⟩, hcount⟩
        obtain ⟨a₂, hcolumns, haround₂, hrounds₂⟩ :=
          haround.columns hq (hrounds.close heap (hconfined.items item hitem) hopen)
        have h₂ := hclose.columns hq hwidth haround hcolumns
        rw [hcolumns] at hsearch
        refine search_explored hq hwidth hne hreach left a₂ (item.node :: order) a' haround₂.confined h₂ hrounds₂.count
          ?_ ?_ hsearch
        · exact List.not_mem_cons_of_ne_of_not_mem (Ne.symm hother) hend
        · rw [List.length_cons]
          omega

/-- A run fails that begins at its end, or from outside the map where there is no way. -/
theorem search_fails (hend : q.end_ = index q.map end_) (h : Opened q.map start end_ a')
    (hway : index q.map start = index q.map end_ ∨
      Outside q start end_ ∧ ¬ ReflTransGen (Passes q.map q.userdata start) start end_) (left : Nat) :
    ∃ a'', search q.std q.map q.userdata q.heuristic q.getCost q.end_ left a' = some a'' ∧ a''.lastPath = [] := by
  by_cases hsame : index q.map start = index q.map end_
  · exact search_at_end hend h hsame left
  · obtain ⟨hq, hreach⟩ := hway.resolve_left hsame
    have hne : q.end_ ≠ q.start := fun heq => hsame (by rw [← hq.startNode, ← heq, hq.endNode])
    exact search_confined hq hne hreach left a' [] (h.confined hq hsame) ⟨.nil, nofun, h.count⟩ List.not_mem_nil

/-! ## `findPath` -/

variable [NatCast K] [OfScientific K]

omit [Add K] [LT K] [DecidableLT K] [BEq K] [NatCast K] [OfScientific K] in
/-- A run begins with nothing closed. -/
theorem Opened.explored (hq : Outside q start end_) (h : Opened q.map start end_ a) :
    Explored q start (fun _ _ => True) [] a := by
  refine ⟨fun v hv _ => ?_, fun b c hb => absurd hb List.not_mem_nil, fun v hv _ => (h.new v hv).2.1, fun v => ?_,
    fun v hv => absurd hv List.not_mem_nil, .nil⟩
  · obtain rfl : v = q.start := hv.2.resolve_right fun hparent => hparent (h.new v hv.1).1
    obtain ⟨item, hitem, hf⟩ := h.pushed
    rw [← hq.startNode] at hf
    exact ⟨item, hitem, (h.items item hitem).trans hq.startNode.symm, hf⟩
  · refine ⟨fun hv => absurd hv List.not_mem_nil, fun ⟨hown, hclosed⟩ => ?_⟩
    rw [(h.new v hown).2.2] at hclosed
    cases hclosed

/-- `findPath` has no way to its end: the end is blocked, or there are indices for both, and there is
no node for one of them, the start has the node of the end, or no steps lead from the start to the
end. -/
def NoWay (map : AbstractMap U) (userdata : U) (a : AStar K) (start end_ : Int × Int) : Prop :=
  map.isBlock end_.1 end_.2 userdata = true ∨
    ∃ a', a.resizeMap (int.cast map.getWidth) (int.cast map.getHeight) = some a' ∧ Indexed map start ∧
      Indexed map end_ ∧ (¬ (Allocated map a' start ∧ Allocated map a' end_) ∨ index map start = index map end_ ∨
        Numbered map ∧ LoopsFit start ∧ ¬ ReflTransGen (Passes map userdata start) start end_)

omit [LT K] [DecidableLT K] [BEq K] in
theorem opened_outside (std : HeapAlgorithms) (a : AStar K) {map : AbstractMap U}
    (hnumbered : Numbered map) (userdata : U) (hfit : LoopsFit start) (hout : ¬ InMap map start)
    (hend : InMap map end_) (hfree : map.isBlock end_.1 end_.2 userdata = false) (h : Opened map start end_ a') :
    Outside (query std map a start end_ userdata) start end_ :=
  ⟨hnumbered, hfit, rfl, h.indexed.1, h.allocated.1.1, hout, rfl, hend, hfree⟩

/-- Where there is no way, `findPath` fails. -/
theorem NoWay.fails (std : HeapAlgorithms) {map : AbstractMap U} {userdata : U} (hfresh : Fresh a)
    (hout : ¬ InMap map start) (hend : InMap map end_) (hway : NoWay map userdata a start end_) :
    ∃ a', a.findPath std map start.1 start.2 end_.1 end_.2 userdata = some (a', false) ∧ a'.lastPath = [] := by
  have hne : start ≠ end_ := fun heq => hout (heq ▸ hend)
  cases hfree : map.isBlock end_.1 end_.2 userdata with
  | true => exact ⟨_, findPath_blocked std a hne hfree, rfl⟩
  | false =>
    rcases hway with hblock | ⟨a₂, hresize, hs, he, hcase⟩
    · exact absurd (hfree.symm.trans hblock) (by decide)
    obtain ⟨a₁, hprepare, hrows⟩ := prepare_total hresize
    rw [← allocated_congr hrows, ← allocated_congr hrows] at hcase
    by_cases hnodes : Allocated map a₁ start ∧ Allocated map a₁ end_
    swap
    · exact findPath_rejects std hne hfree hprepare hs he hnodes
    obtain ⟨a₀, hopens⟩ := opens_total std hne hfree hprepare ⟨hs, hnodes.1⟩ ⟨he, hnodes.2⟩
    obtain ⟨h, -⟩ := opens_spec hfresh hopens
    obtain ⟨a', hsearch, hpath⟩ := search_fails (q := query std map a start end_ userdata) rfl h
      ((hcase.resolve_left (not_not.mpr hnodes)).imp_right fun ⟨hnumbered, hfit, hreach⟩ =>
        ⟨opened_outside std a hnumbered userdata hfit hout hend hfree h, hreach⟩) a₀.maxCount.toNat
    refine ⟨{ a' with openHeap := [] }, ?_, hpath⟩
    rw [findPath_opens hopens]
    refine (congrArg _ hsearch).trans ?_
    rw [Option.map_some, hpath]
    rfl

/-- **A start outside the map** makes `findPath` fail when there is no way from it to the end.  In a
map of two columns or more with a node for every cell, from a start that is not at the limits of
`int`, and with a `maxCount` of at least the number of cells that can be reached, it does so only
then. -/
theorem outside_start_fails_iff (std : HeapAlgorithms) (max : Int) (history : List (Call U K)) (a : AStar K)
    (out : List (Option Bool)) (hrun : runOps (step std) (AStar.new max) history = some (a, out))
    (map : AbstractMap U) (userdata : U) (start end_ : Int × Int) (hout : ¬ InMap map start)
    (hend : InMap map end_) :
    (NoWay map userdata a start end_ →
      ∃ a', a.findPath std map start.1 start.2 end_.1 end_.2 userdata = some (a', false) ∧ a'.lastPath = []) ∧
    ∀ [ReflBEq K], Numbered map → LoopsFit start → 1 < map.getWidth →
      ({c | ReflTransGen (Passes map userdata start) start c}.ncard : Int) ≤ a.maxCount →
      (∃ a', a.findPath std map start.1 start.2 end_.1 end_.2 userdata = some (a', false) ∧ a'.lastPath = []) →
      NoWay map userdata a start end_ := by
  have hne : start ≠ end_ := fun heq => hout (heq ▸ hend)
  refine ⟨fun hway => hway.fails std (fresh_of_calls hrun) hout hend, fun hnumbered hfit hwidth hmax ⟨a',
    hfails, hpath⟩ => ?_⟩
  by_contra hway
  obtain ⟨hfree, hway⟩ := not_or.mp hway
  rw [Bool.not_eq_true] at hfree
  have hs : Indexed map start := by_contra fun hs => by
    rw [findPath_overflows std hne hfree fun h => hs h.1] at hfails
    cases hfails
  have he := hend.indexed hnumbered
  obtain ⟨a₂, hresize, -⟩ := resizeMap_room hnumbered a
  obtain ⟨a₁, hprepare, hrows⟩ := prepare_total hresize
  have hcase := fun h => hway ⟨a₂, hresize, hs, he, h⟩
  rw [← allocated_congr hrows, ← allocated_congr hrows, imp_false, not_or, not_or, not_not] at hcase
  obtain ⟨hnodes, hother, hreach⟩ := hcase
  have hreach : ReflTransGen (Passes map userdata start) start end_ := by_contra fun h => hreach ⟨hnumbered, hfit, h⟩
  obtain ⟨a₀, hopens⟩ := opens_total std hne hfree hprepare ⟨hs, hnodes.1⟩ ⟨he, hnodes.2⟩
  obtain ⟨h, -, -, hcount⟩ := opens_spec (fresh_of_calls hrun) hopens
  have hq := opened_outside std a hnumbered userdata hfit hout hend hfree h
  rw [findPath_opens hopens] at hfails
  obtain ⟨a₁, hsearch, hresult⟩ := Option.map_eq_some_iff.mp hfails
  obtain ⟨rfl, -⟩ := Prod.mk.inj hresult
  refine search_explored hq hwidth (fun heq => hother heq.symm) hreach a₀.maxCount.toNat a₀ [] a₁
    (h.confined hq hother) (h.explored hq) h.count List.not_mem_nil ?_ hsearch hpath
  rw [hcount, List.length_nil, Nat.zero_add]
  simp only [query]
  omega

/-- Two cells by two, blocked outside. -/
def room : AbstractMap Unit :=
  { square with isBlock := fun x y _ => x < 0 ∨ 2 ≤ x ∨ y < 0 ∨ 2 ≤ y }

/-- No cell of the room is next to the start, which has a node of its own. -/
theorem outside_start_fails_iff_room :
    (∃ a', (AStar.new 512 : AStar ℚ).findPath HeapAlgorithms.sorted room 5 0 1 1 () = some (a', false) ∧
      a'.lastPath = []) ∧ NoWay room () (AStar.new 512 : AStar ℚ) (5, 0) (1, 1) := by
  have halone : ∀ c, ReflTransGen (Passes room () (5, 0)) (5, 0) c → (5, 0) = c := fun c hreach => by
    rcases hreach.cases_head with heq | ⟨b, ⟨⟨⟨-, hx, -⟩, ⟨-, hxw, -⟩, -⟩, -⟩, -⟩
    · exact heq
    · simp only [room, square] at hx hxw
      omega
  obtain ⟨hfails, hiff⟩ := outside_start_fails_iff HeapAlgorithms.sorted 512 [] (AStar.new 512 : AStar ℚ) [] rfl room ()
    (5, 0) (1, 1) (by decide) (by decide)
  obtain ⟨a₁, hresize, -⟩ := resizeMap_room (show Numbered room by decide) (AStar.new 512 : AStar ℚ)
  have hfound := hfails (Or.inr ⟨a₁, hresize, by decide, by decide, Or.inr (Or.inr ⟨by decide, by decide,
    fun hreach => absurd (halone _ hreach) (by decide)⟩)⟩)
  refine ⟨hfound, hiff (by decide) (by decide) (by decide) ?_ hfound⟩
  have hcard : {c | ReflTransGen (Passes room () (5, 0)) (5, 0) c}.ncard ≤ ({(5, 0)} : Set (Int × Int)).ncard :=
    Set.ncard_le_ncard fun c hc => (halone c hc).symm
  rw [Set.ncard_singleton] at hcard
  change (_ : Int) ≤ 512
  omega

/-- A start on the left has the node of a cell on the right, and is one step from the end. -/
theorem outside_start_found : ∃ a', (AStar.new 512 : AStar ℚ).findPath HeapAlgorithms.sorted room (-1) 1 0 0 () =
    some (a', true) ∧ a'.path = [(0, 0)] ∧ ¬ InMap room (-1, 1) ∧ InMap room (0, 0) ∧
      ∀ c, ¬ InMap room c → room.isBlock c.1 c.2 () = true := by
  have hfind : ((AStar.new 512 : AStar ℚ).findPath HeapAlgorithms.sorted room (-1) 1 0 0 ()).map
      (fun r => (r.2, r.1.path)) = some (true, [(0, 0)]) := by decide +kernel
  obtain ⟨⟨a', found⟩, hfind, hresult⟩ := Option.map_eq_some_iff.mp hfind
  obtain ⟨rfl, hpath⟩ := Prod.mk.inj hresult
  refine ⟨a', hfind, hpath, by decide, by decide, fun c hc => ?_⟩
  simp only [InMap, room, square] at hc ⊢
  rw [decide_eq_true_eq]
  omega

end Libws.Core.AStar
