import Libws.Core.AStarRun

/-!
# A start outside the map

`getNode` looks at the flattened index only, and a start outside the map may get a node.

* `visitColumns_turns` — the loops around any node end, and keep what every visit keeps;
* `Confined` — what the search comes to can be reached from the start;
* `Rounds`, `Rounds.represents` — the rounds close different nodes, and so they can be counted;
* `search_confined` — a search whose end cannot be reached finds nothing.
-/

set_option autoImplicit false

namespace Libws.Core.AStar

open Libws.Heap Libws.Integer Libws.Loop Libws.Machine Relation

variable {U K : Type} [Zero K] [Add K] [LT K] [DecidableLT K] [BEq K]

/-! ## The loops around any node -/

/-- A visit leaves a node where it is, or moves it to the cell that has the node. -/
theorem turn_place {q : Query U K} {current : Nat} {a a' : AStar K} {c : Int × Int} (h : Turn q current a c a')
    (v : Nat) : place a' v = place a v ∨ v = index q.map c ∧ place a' v = c ∧ InMap q.map c := by
  have harrive : Enters q.map q.userdata (place a current) c → place (arrive q.map a c) v = place a v ∨
      v = index q.map c ∧ place (arrive q.map a c) v = c ∧ InMap q.map c := fun henters => by
    by_cases hv : v = index q.map c
    · subst hv
      exact Or.inr ⟨rfl, arrive_place q.map a c, henters.2.1⟩
    · exact Or.inl (by rw [place, arrive_other q.map a c hv]; rfl)
  cases h with
  | skip => exact Or.inl rfl
  | closed henters | keep henters => exact harrive henters
  | reach n henters =>
    rw [(reach_same q.std _ _ current n _ v).1]
    exact harrive henters

/-- The greatest bound that a loop from `first` on reads, when the bound only changes to numbers of the map. -/
def mostOf (first : Int) (size : Nat) : Int := if first < -2 then first + 2 else max (first + 2) size

theorem mostOf_spec (first : Int) (size : Nat) : first + 2 ≤ mostOf first size ∧
    mostOf first size + 1 < first + (size + 4 : Nat) ∧
    ∀ i : Int, 0 ≤ i → i < size → i ≤ mostOf first size → i + 1 ≤ mostOf first size := by
  unfold mostOf
  split
  · refine ⟨le_refl _, by omega, fun i hi _ hle => by omega⟩
  · refine ⟨le_max_left .., ?_, fun i _ hlt _ => ?_⟩
    · omega
    · exact (show i + 1 ≤ (size : Int) by omega).trans (le_max_right ..)

/-- In the loop over `y` at `x`, which began in the state `a`. -/
structure InColumn (q : Query U K) (current : Nat) (P : AStar K → Prop) (x : Int) (a : AStar K) (y : Int)
    (a' : AStar K) : Prop where
  holds : P a'
  beside : (x - (place a' current).1).natAbs ≤ 1
  above : (place a' current).2 - 1 ≤ y
  below : y ≤ (place a' current).2 + 2
  most : (place a' current).2 + 1 ≤ mostOf ((place a current).2 - 1) q.map.getHeight
  column : (place a' current).1 = (place a current).1 ∨ (place a' current).1 = x ∧ 0 ≤ x ∧ x < q.map.getWidth

/-- In the loop over `x`, which began in the state `a`. -/
structure InColumns (q : Query U K) (current : Nat) (P : AStar K → Prop) (a : AStar K) (x : Int) (a' : AStar K) :
    Prop where
  holds : P a'
  before : (place a' current).1 - 1 ≤ x
  behind : x ≤ (place a' current).1 + 2
  most : (place a' current).1 + 1 ≤ mostOf ((place a current).1 - 1) q.map.getWidth

variable (q : Query U K) (current : Nat) (P : AStar K → Prop)
  (hroom : ∀ a, P a → Room q.map a.mapNodes) (hfit : ∀ a, P a → LoopsFit (place a current))
  (hturn : ∀ a a' c, P a → (c.1 - (place a current).1).natAbs ≤ 1 → (c.2 - (place a current).2).natAbs ≤ 1 →
    Turn q current a c a' → P a')

include hroom hfit hturn in
/-- The loop over `y` beside any node comes to its end. -/
theorem visitColumn_turns (x : Int) (a : AStar K) (hx : (x - (place a current).1).natAbs ≤ 1) (h : P a) :
    ∃ a', visitColumn q.std q.map q.userdata q.heuristic q.getCost current q.end_ x a = some a' ∧
      ∃ y, InColumn q current P x a y a' := by
  obtain ⟨hfirst, hleft, hmoved⟩ := mostOf_spec ((place a current).2 - 1) q.map.getHeight
  have hbody : ∀ y a₁, InColumn q current P x a y a₁ → y ≤ (a₁.nodes current).y + 1 →
      ∃ a₂, visit q.std q.map q.userdata q.heuristic q.getCost current q.end_ a₁ (x, y) = some a₂ ∧
        InColumn q current P x a (y + 1) a₂ := by
    intro y a₁ h₁ hle
    have hle' : y ≤ (place a₁ current).2 + 1 := hle
    have habove := h₁.above
    obtain ⟨a₂, hvisit, hcase⟩ := visit_turn q current (x, y) fun henters =>
      ⟨henters.2.1.indexed (hroom a₁ h₁.holds).numbered, henters.2.1.allocated (hroom a₁ h₁.holds)⟩
    have h₂ := hturn a₁ a₂ (x, y) h₁.holds h₁.beside (by simp only; omega) hcase
    refine ⟨a₂, hvisit, ?_⟩
    rcases turn_place hcase current with hsame | ⟨-, hmove, hx₀, hxw, hy₀, hyh⟩
    · exact ⟨h₂, hsame ▸ h₁.beside, by rw [hsame]; omega, by rw [hsame]; omega, hsame ▸ h₁.most, hsame ▸ h₁.column⟩
    · simp only at hx₀ hxw hy₀ hyh
      have hmost := hmoved y hy₀ hyh (hle'.trans h₁.most)
      refine ⟨h₂, ?_, ?_, ?_, ?_, Or.inr ⟨by rw [hmove], hx₀, hxw⟩⟩ <;> rw [hmove]
      · simp only
        omega
      · simp only
        omega
      · simp only
        omega
      · exact hmost
  have hfits : ∀ y a₁, InColumn q current P x a y a₁ →
      int.Represents y ∧ int.Represents ((a₁.nodes current).y + 1) := fun y a₁ h₁ => by
    obtain ⟨-, -, hlow, hhigh⟩ := hfit a₁ h₁.holds
    exact ⟨represents_between hlow hhigh h₁.above h₁.below,
      represents_between hlow hhigh (by simp only [place]; omega) (by simp only [place]; omega)⟩
  exact forUpTo_total (InColumn q current P x a) (fun y a₁ h₁ => h₁.most) hfits hbody (q.map.getHeight + 4)
    ((place a current).2 - 1) a ⟨h, hx, le_refl _, by omega, by omega, Or.inl rfl⟩ (by omega) hleft

include hroom hfit hturn in
/-- **The loops around any node** come to their end, and keep what every visit keeps. -/
theorem visitColumns_turns (a : AStar K) (h : P a) :
    ∃ a', visitColumns q.std q.map q.userdata q.heuristic q.getCost current q.end_ a = some a' ∧ P a' := by
  obtain ⟨hfirst, hleft, hmoved⟩ := mostOf_spec ((place a current).1 - 1) q.map.getWidth
  have hbody : ∀ x a₁, InColumns q current P a x a₁ → x ≤ (a₁.nodes current).x + 1 →
      ∃ a₂, visitColumn q.std q.map q.userdata q.heuristic q.getCost current q.end_ x a₁ = some a₂ ∧
        InColumns q current P a (x + 1) a₂ := by
    intro x a₁ h₁ hle
    have hle' : x ≤ (place a₁ current).1 + 1 := hle
    have hbefore := h₁.before
    obtain ⟨a₂, hcolumn, y, h₂⟩ := visitColumn_turns q current P hroom hfit hturn x a₁ (by omega) h₁.holds
    refine ⟨a₂, hcolumn, h₂.holds, ?_, ?_, ?_⟩
    · rcases h₂.column with hsame | ⟨hmove, -⟩ <;> omega
    · rcases h₂.column with hsame | ⟨hmove, -⟩ <;> omega
    · rcases h₂.column with hsame | ⟨hmove, hx₀, hxw⟩
      · exact hsame ▸ h₁.most
      · exact hmove ▸ hmoved x hx₀ hxw (hle'.trans h₁.most)
  have hfits : ∀ x a₁, InColumns q current P a x a₁ →
      int.Represents x ∧ int.Represents ((a₁.nodes current).x + 1) := fun x a₁ h₁ => by
    obtain ⟨hlow, hhigh, -⟩ := hfit a₁ h₁.holds
    exact ⟨represents_between hlow hhigh h₁.before h₁.behind,
      represents_between hlow hhigh (by simp only [place]; omega) (by simp only [place]; omega)⟩
  obtain ⟨a', hloop, x, h'⟩ := forUpTo_total (InColumns q current P a) (fun x a₁ h₁ => h₁.most) hfits hbody
    (q.map.getWidth + 4) ((place a current).1 - 1) a ⟨h, le_refl _, by omega, by omega⟩ (by omega) hleft
  exact ⟨a', hloop, h'.holds⟩

/-! ## What the search comes to -/

/-- A step that does not come back to the node of the start.  Where the map has only one column, a
step may do so: the start is then moved to the cell, and the loops go on around it there. -/
def Passes (map : AbstractMap U) (userdata : U) (start b c : Int × Int) : Prop :=
  Step map userdata b c ∧ (1 < map.getWidth → index map c ≠ index map start)

/-- In a map of two columns or more, no cell beside a start outside it has its node. -/
theorem index_beside {map : AbstractMap U} {start c : Int × Int} (hnumbered : Numbered map) (hwidth : 1 < map.getWidth)
    (hnonneg : 0 ≤ start.2 * int.cast map.getWidth + start.1) (hout : ¬ InMap map start) (hc : InMap map c)
    (hx : (c.1 - start.1).natAbs ≤ 1) (hy : (c.2 - start.2).natAbs ≤ 1) : index map c ≠ index map start := by
  intro heq
  simp only [index, hnumbered.width_eq hc] at heq hnonneg
  obtain ⟨x, y⟩ := start
  obtain ⟨x', y'⟩ := c
  have hc₀ : 0 ≤ y' * (map.getWidth : Int) + x' :=
    Int.add_nonneg (Int.mul_nonneg hc.2.2.1 (Int.natCast_nonneg _)) hc.1
  simp only at heq hnonneg hx hy
  have hflat : y' * (map.getWidth : Int) + x' = y * map.getWidth + x := by omega
  obtain hrow | hrow | hrow : y' = y - 1 ∨ y' = y ∨ y' = y + 1 := by omega
  · rw [hrow, Int.sub_mul, Int.one_mul] at hflat
    omega
  · obtain rfl : x' = x := by
      rw [hrow] at hflat
      omega
    exact hout (hrow ▸ hc)
  · rw [hrow, Int.add_mul, Int.one_mul] at hflat
    omega

/-- A query from a start outside the map that has a node, to an end in it. -/
structure Outside (q : Query U K) (start end_ : Int × Int) : Prop where
  numbered : Numbered q.map
  fits : LoopsFit start
  startNode : q.start = index q.map start
  indexed : Indexed q.map start
  nonneg : 0 ≤ start.2 * int.cast q.map.getWidth + start.1
  outside : ¬ InMap q.map start
  endNode : q.end_ = index q.map end_
  inside : InMap q.map end_
  free : q.map.isBlock end_.1 end_.2 q.userdata = false

/-- The search has come to the node. -/
def Known (s : Nat) (a : AStar K) (v : Nat) : Prop :=
  (a.nodes v).generation = a.searchGeneration ∧ (v = s ∨ (a.nodes v).parent ≠ none)

/-- Where the search has come to can be reached from `start`. -/
structure Confined (q : Query U K) (start end_ : Int × Int) (a : AStar K) : Prop where
  room : Room q.map a.mapNodes
  lastPath : a.lastPath = []
  items : ∀ item ∈ a.openHeap, Known q.start a item.node
  own : (a.nodes q.start).generation = a.searchGeneration
  first : (a.nodes q.start).isClosed = false → place a q.start = start ∧ ∀ item ∈ a.openHeap, item.node = q.start
  placed : ∀ v, (a.nodes v).generation = a.searchGeneration → index q.map (place a v) = v
  found : ∀ v, Known q.start a v → (1 < q.map.getWidth → v ≠ q.start) →
    ReflTransGen (Passes q.map q.userdata start) start (place a v)
  endAt : place a q.end_ = end_

/-- In the loops around `current`. -/
structure Around (q : Query U K) (start end_ : Int × Int) (current : Nat) (a : AStar K) : Prop where
  confined : Confined q start end_ a
  known : Known q.start a current
  closed : (a.nodes q.start).isClosed = true
  origin : 1 < q.map.getWidth → current = q.start → place a current = start

variable {q : Query U K} {current : Nat} {start end_ : Int × Int} {a a' : AStar K} {c : Int × Int}

omit [Add K] [LT K] [DecidableLT K] [BEq K] in
/-- `getNode` takes no node from the search, and brings none to it. -/
theorem known_arrive {s v : Nat} (hs : (a.nodes s).generation = a.searchGeneration) (map : AbstractMap U)
    (c : Int × Int) : Known s (arrive map a c) v ↔ Known s a v := by
  by_cases hv : v = index map c
  · subst hv
    by_cases hold : (a.nodes (index map c)).generation = a.searchGeneration
    · rw [Known, arrive_node, touch, if_neg (not_not.mpr hold)]
      exact Iff.rfl
    · have hnew : ¬ Known s a (index map c) := fun h => hold h.1
      refine ⟨fun h => ?_, fun h => absurd h hnew⟩
      rcases h.2 with rfl | hparent
      · exact absurd hs hold
      · rw [arrive_node, touch, if_pos hold] at hparent
        exact absurd rfl hparent
  · rw [Known, arrive_own, arrive_other map a c hv, or_iff_right hv]
    rfl

omit [BEq K] [Zero K] in
theorem Known.reach {s v : Nat} (h : Known s a v) (std : HeapAlgorithms) (w : Nat) (n g : K) :
    Known s (a.reach std w current n g) v := by
  refine ⟨(reach_same std a w current n g v).2.1.trans h.1, h.2.imp_right fun hparent => ?_⟩
  by_cases hv : v = w
  · subst hv
    rw [reach_node]
    exact Option.some_ne_none _
  · rw [reach_other std a w current n g hv]
    exact hparent

theorem Known.turn {s v : Nat} (hs : (a.nodes s).generation = a.searchGeneration) (h : Known s a v)
    (hturn : Turn q current a c a') : Known s a' v := by
  have harrive := (known_arrive hs q.map c).mpr h
  cases hturn with
  | skip => exact h
  | closed | keep => exact harrive
  | reach => exact harrive.reach ..

omit [Zero K] [Add K] [LT K] [DecidableLT K] [BEq K] in
/-- The node that the loops are around can be reached. -/
theorem Around.reachable (h : Around q start end_ current a) :
    ReflTransGen (Passes q.map q.userdata start) start (place a current) := by
  by_cases hroot : 1 < q.map.getWidth ∧ current = q.start
  · rw [h.origin hroot.1 hroot.2]
  · exact h.confined.found current h.known fun hwidth heq => hroot ⟨hwidth, heq⟩

/-- The start stays where it is while the loops are around it, if the map has two columns. -/
theorem Around.stays (hq : Outside q start end_) (h : Around q start end_ current a)
    (hx : (c.1 - (place a current).1).natAbs ≤ 1) (hy : (c.2 - (place a current).2).natAbs ≤ 1)
    (hturn : Turn q current a c a') (hwidth : 1 < q.map.getWidth)
    (hcurrent : current = q.start) : place a' current = start := by
  rw [h.origin hwidth hcurrent] at hx hy
  rcases turn_place hturn current with hsame | ⟨hnode, -, hin⟩
  · rw [hsame, h.origin hwidth hcurrent]
  · rw [hcurrent, hq.startNode] at hnode
    exact absurd hnode.symm (index_beside hq.numbered hwidth hq.nonneg hq.outside hin hx hy)

omit [Zero K] [Add K] [LT K] [DecidableLT K] [BEq K] in
/-- A cell that a visit enters can be reached. -/
theorem Around.reaches (hq : Outside q start end_) (h : Around q start end_ current a)
    (hx : (c.1 - (place a current).1).natAbs ≤ 1) (hy : (c.2 - (place a current).2).natAbs ≤ 1)
    (henters : Enters q.map q.userdata (place a current) c) (hne : 1 < q.map.getWidth → index q.map c ≠ q.start) :
    ReflTransGen (Passes q.map q.userdata start) start c :=
  h.reachable.tail ⟨step_iff.mpr ⟨henters, hx, hy⟩, fun hwidth => hq.startNode ▸ hne hwidth⟩

omit [Add K] [LT K] [DecidableLT K] [BEq K] in
/-- After `getNode` the nodes of the search are still at cells that they belong to. -/
theorem Confined.placed_arrive (h : Confined q start end_ a) {v : Nat}
    (hv : ((arrive q.map a c).nodes v).generation = (arrive q.map a c).searchGeneration) :
    index q.map (place (arrive q.map a c) v) = v := by
  by_cases hc : v = index q.map c
  · subst hc
    rw [arrive_place]
  · rw [place, arrive_other q.map a c hc]
    exact h.placed v (((arrive_own q.map a c v).mp hv).resolve_left hc)

omit [Add K] [LT K] [DecidableLT K] [BEq K] in
/-- After `getNode` of a cell that is entered, the nodes are where they can be reached, and the end is at its
cell. -/
theorem Around.found_arrive (hq : Outside q start end_) (h : Around q start end_ current a)
    (hx : (c.1 - (place a current).1).natAbs ≤ 1) (hy : (c.2 - (place a current).2).natAbs ≤ 1)
    (henters : Enters q.map q.userdata (place a current) c) :
    (∀ v, Known q.start (arrive q.map a c) v → (1 < q.map.getWidth → v ≠ q.start) →
      ReflTransGen (Passes q.map q.userdata start) start (place (arrive q.map a c) v)) ∧
    place (arrive q.map a c) q.end_ = end_ := by
  refine ⟨fun v hv hne => ?_, ?_⟩
  · by_cases hc : v = index q.map c
    · subst hc
      rw [arrive_place]
      exact h.reaches hq hx hy henters hne
    · rw [place, arrive_other q.map a c hc]
      exact h.confined.found v ((known_arrive h.confined.own q.map c).mp hv) hne
  · by_cases hc : q.end_ = index q.map c
    · -- only one cell of the map has the node of the end
      rw [hc, arrive_place, ← cell_index hq.numbered henters.2.1, ← hc, hq.endNode, cell_index hq.numbered hq.inside]
    · rw [place, arrive_other q.map a c hc]
      exact h.confined.endAt

/-- A visit comes only to cells that can be reached. -/
theorem Around.turn (hq : Outside q start end_) (h : Around q start end_ current a)
    (hx : (c.1 - (place a current).1).natAbs ≤ 1) (hy : (c.2 - (place a current).2).natAbs ≤ 1)
    (hturn : Turn q current a c a') : Around q start end_ current a' := by
  have hown := h.confined.own
  have hstays := h.stays hq hx hy hturn
  have hclosed := (turn_same hturn hown).2.trans h.closed
  have hfirst : ∀ {P : Prop}, (a'.nodes q.start).isClosed = false → P := fun hopen => by
    rw [hclosed] at hopen
    cases hopen
  refine ⟨?_, h.known.turn hown hturn, hclosed, hstays⟩
  have hitems : ∀ item ∈ a.openHeap, Known q.start a' item.node := fun item hitem =>
    (h.confined.items item hitem).turn hown hturn
  cases hturn with
  | skip => exact h.confined
  | closed henters | keep henters =>
    obtain ⟨hfound, hendAt⟩ := h.found_arrive hq hx hy henters
    exact ⟨h.confined.room, h.confined.lastPath, hitems, (arrive_own ..).mpr (Or.inr hown), hfirst,
      fun _ => h.confined.placed_arrive, hfound, hendAt⟩
  | reach n henters hopen =>
    obtain ⟨hfound, hendAt⟩ := h.found_arrive hq hx hy henters
    have hsame := reach_same q.std (arrive q.map a c) (index q.map c) current n
      (costOver q (arrive q.map a c) current c)
    refine ⟨h.confined.room, h.confined.lastPath, fun item hitem => ?_, ?_, hfirst, fun v hv => ?_,
      fun v hv hne => ?_, (hsame q.end_).1.trans hendAt⟩
    · rcases (mem_reach_heap ..).mp hitem with hitem | rfl
      · exact hitems item hitem
      · refine ⟨?_, Or.inr ?_⟩
        · rw [(hsame _).2.1]
          exact (arrive_own q.map a c _).mpr (Or.inl rfl)
        · rw [reach_node]
          exact Option.some_ne_none _
    · rw [(hsame _).2.1]
      exact (arrive_own q.map a c q.start).mpr (Or.inr hown)
    · rw [(hsame v).1]
      exact h.confined.placed_arrive ((hsame v).2.1.symm.trans hv)
    · rw [(hsame v).1]
      by_cases hc : v = index q.map c
      · subst hc
        rw [arrive_place]
        exact h.reaches hq hx hy henters hne
      · refine hfound v ⟨(hsame v).2.1.symm.trans hv.1, ?_⟩ hne
        have hparent := hv.2
        rw [reach_other _ _ _ _ _ _ hc] at hparent
        exact hparent

omit [Zero K] [Add K] [LT K] [DecidableLT K] [BEq K] in
/-- A search may take items from the heap. -/
theorem Confined.pop (h : Confined q start end_ a) {heap : List (HeapItem K)}
    (hheap : ∀ item ∈ heap, item ∈ a.openHeap) :
    Confined q start end_ { a with count := a.count + 1, openHeap := heap } :=
  ⟨h.room, h.lastPath, fun item hitem => h.items item (hheap item hitem), h.own,
    fun hopen => ⟨(h.first hopen).1, fun item hitem => (h.first hopen).2 item (hheap item hitem)⟩, h.placed,
      h.found, h.endAt⟩

omit [Zero K] [Add K] [LT K] [DecidableLT K] [BEq K] in
/-- The loops begin around a node that was popped.  The first one is the start. -/
theorem Confined.close (h : Confined q start end_ a) {heap : List (HeapItem K)} {item : HeapItem K}
    (hheap : ∀ other ∈ heap, other ∈ a.openHeap) (hitem : item ∈ a.openHeap)
    (hopen : (a.nodes item.node).isClosed = false) :
    Around q start end_ item.node (({ a with count := a.count + 1, openHeap := heap } : AStar K).setNode item.node
      { a.nodes item.node with isClosed := true }) := by
  have hpop := h.pop hheap
  have hnode := setNode_closed { a with count := a.count + 1, openHeap := heap } item.node
  have hplace : ∀ v, place (({ a with count := a.count + 1, openHeap := heap } : AStar K).setNode item.node
      { a.nodes item.node with isClosed := true }) v = place a v := fun v => by
    rw [place, hnode]
    rfl
  have hknown : ∀ v, Known q.start (({ a with count := a.count + 1, openHeap := heap } : AStar K).setNode item.node
      { a.nodes item.node with isClosed := true }) v ↔ Known q.start a v := fun v => by
    rw [Known, hnode]
    exact Iff.rfl
  -- while the start is open there are only items of the start
  have hclosed : ((({ a with count := a.count + 1, openHeap := heap } : AStar K).setNode item.node
      { a.nodes item.node with isClosed := true }).nodes q.start).isClosed = true := by
    rw [hnode]
    by_cases hs : (a.nodes q.start).isClosed = true
    · simp only [hs, Bool.or_true]
    · have hroot := (h.first ((Bool.not_eq_true _).mp hs)).2 item hitem
      simp only [hroot, decide_true, Bool.true_or]
  have hown : ∀ v, ((({ a with count := a.count + 1, openHeap := heap } : AStar K).setNode item.node
      { a.nodes item.node with isClosed := true }).nodes v).generation = (a.nodes v).generation := fun v => by
    rw [hnode]
  refine ⟨⟨h.room, h.lastPath, fun other hother => (hknown other.node).mpr (hpop.items other hother),
    (hown q.start).trans h.own, fun hunclosed => ?_, fun v hv => ?_, fun v hv hne => ?_,
    (hplace q.end_).trans h.endAt⟩, (hknown item.node).mpr (h.items item hitem), hclosed, fun hwidth heq => ?_⟩
  · rw [hclosed] at hunclosed
    cases hunclosed
  · rw [hplace]
    exact h.placed v ((hown v).symm.trans hv)
  · rw [hplace]
    exact h.found v ((hknown v).mp hv) hne
  · rw [hplace]
    rw [heq] at hopen ⊢
    exact (h.first hopen).1

omit [Zero K] [Add K] [LT K] [DecidableLT K] [BEq K] in
/-- The loops stay in `int`. -/
theorem Around.loopsFit (hq : Outside q start end_) (h : Around q start end_ current a) :
    LoopsFit (place a current) := by
  rcases h.reachable.cases_tail with heq | ⟨b, -, hpass⟩
  · exact heq ▸ hq.fits
  · exact hpass.1.2.1.loopsFit hq.numbered

/-! ## The rounds -/

/-- The rounds have closed the nodes `order`. -/
structure Rounds (s : Nat) (order : List Nat) (a : AStar K) : Prop where
  nodup : order.Nodup
  closed : ∀ v ∈ order, Known s a v ∧ (a.nodes v).isClosed = true
  count : a.count = order.length

theorem Rounds.turn {s : Nat} {order : List Nat} (h : Rounds s order a)
    (hs : (a.nodes s).generation = a.searchGeneration) (hturn : Turn q current a c a') : Rounds s order a' :=
  ⟨h.nodup, fun v hv => ⟨(h.closed v hv).1.turn hs hturn,
    (turn_same hturn (h.closed v hv).1.1).2.trans (h.closed v hv).2⟩, (turn_count hturn).trans h.count⟩

omit [Zero K] [Add K] [LT K] [DecidableLT K] [BEq K] in
/-- A round closes a node. -/
theorem Rounds.close {s : Nat} {order : List Nat} (h : Rounds s order a) (heap : List (HeapItem K)) {v : Nat}
    (hknown : Known s a v) (hopen : (a.nodes v).isClosed = false) :
    Rounds s (v :: order) (({ a with count := a.count + 1, openHeap := heap } : AStar K).setNode v
      { a.nodes v with isClosed := true }) := by
  have hnode := setNode_closed { a with count := a.count + 1, openHeap := heap } v
  have hnew : v ∉ order := fun hmem => by
    rw [(h.closed v hmem).2] at hopen
    cases hopen
  refine ⟨List.nodup_cons.mpr ⟨hnew, h.nodup⟩, fun u hu => ?_, ?_⟩
  · have hmem : Known s a u ∧ (u = v ∨ (a.nodes u).isClosed = true) := by
      rcases List.mem_cons.mp hu with rfl | hu
      · exact ⟨hknown, Or.inl rfl⟩
      · exact ⟨(h.closed u hu).1, Or.inr (h.closed u hu).2⟩
    rw [Known, hnode, Bool.or_eq_true, decide_eq_true_eq]
    exact hmem
  · change a.count + 1 = _
    rw [h.count, List.length_cons, Int.natCast_succ]

omit [Zero K] [Add K] [LT K] [DecidableLT K] [BEq K] in
/-- A closed node is the start, or a node of the map. -/
theorem Rounds.node_lt {order : List Nat} (hq : Outside q start end_) (hconfined : Confined q start end_ a)
    (h : Rounds q.start order a) {v : Nat} (hv : v ∈ order) :
    v = q.start ∨ v < q.map.getWidth * q.map.getHeight := by
  obtain ⟨hknown, -⟩ := h.closed v hv
  refine or_iff_not_imp_left.mpr fun hother => ?_
  have hplaced := hconfined.placed v hknown.1
  rcases (hconfined.found v hknown fun _ => hother).cases_tail with heq | ⟨b, -, hpass⟩
  · rw [heq, ← hq.startNode] at hplaced
    exact absurd hplaced.symm hother
  · rw [← hplaced]
    exact index_lt hq.numbered hpass.1.2.1

omit [Zero K] [Add K] [LT K] [DecidableLT K] [BEq K] in
/-- Where there is no way to the end, no neighbour of it is closed. -/
theorem Rounds.not_beside {order : List Nat} (hq : Outside q start end_) (hconfined : Confined q start end_ a)
    (h : Rounds q.start order a) (hne : q.end_ ≠ q.start)
    (hreach : ¬ ReflTransGen (Passes q.map q.userdata start) start end_) {b : Int × Int} (hb : InMap q.map b)
    (hnear : Neighbour b end_) (hother : index q.map b ≠ q.start) : index q.map b ∉ order := by
  intro hmem
  obtain ⟨hknown, -⟩ := h.closed _ hmem
  have hplaced := hconfined.placed _ hknown.1
  have hfound := hconfined.found _ hknown fun _ => hother
  have hat : place a (index q.map b) = b := by
    rcases hfound.cases_tail with heq | ⟨c, -, hpass⟩
    · rw [heq, ← hq.startNode] at hplaced
      exact absurd hplaced.symm hother
    · rw [← cell_index hq.numbered hpass.1.2.1, hplaced, cell_index hq.numbered hb]
  rw [hat] at hfound
  exact hreach (hfound.tail ⟨⟨hnear, hq.inside, hq.free⟩, fun _ => by rw [← hq.endNode, ← hq.startNode]; exact hne⟩)

omit [Zero K] [Add K] [LT K] [DecidableLT K] [BEq K] in
/-- The last `count++` does not overflow. -/
theorem Rounds.represents {order : List Nat} (hq : Outside q start end_) (hconfined : Confined q start end_ a)
    (h : Rounds q.start order a) (hend : q.end_ ∉ order) (hne : q.end_ ≠ q.start)
    (hreach : ¬ ReflTransGen (Passes q.map q.userdata start) start end_) : int.Represents (a.count + 1) := by
  have hinside : q.end_ < q.map.getWidth * q.map.getHeight := hq.endNode ▸ index_lt hq.numbered hq.inside
  rw [represents_int, h.count]
  have hcases := hq.numbered
  rcases hcases with hsized | ⟨hcells, hwidth, hheight⟩
  · have hsub : q.end_ :: order ⊆ q.start :: List.range (q.map.getWidth * q.map.getHeight) := fun v hv => by
      rw [List.mem_cons, List.mem_range]
      rcases List.mem_cons.mp hv with rfl | hv
      · exact Or.inr hinside
      · exact h.node_lt hq hconfined hv
    have hle := (List.subperm_of_subset (List.nodup_cons.mpr ⟨hend, h.nodup⟩) hsub).length_le
    rw [List.length_cons, List.length_cons, List.length_range] at hle
    unfold Sized at hsized
    omega
  · obtain ⟨b, hb, hnear, hother⟩ := exists_neighbour hq.numbered hwidth hheight hq.inside q.start
    have hopen := h.not_beside hq hconfined hne hreach hb hnear hother
    have hdistinct : q.end_ ≠ index q.map b := fun heq => hnear.1 (by
      rw [← cell_index hq.numbered hb, ← heq, hq.endNode, cell_index hq.numbered hq.inside])
    have hnodup : (q.end_ :: index q.map b :: order).Nodup := by
      simp only [List.nodup_cons, List.mem_cons, not_or]
      exact ⟨⟨hdistinct, hend⟩, hopen, h.nodup⟩
    -- the start has a node of the map, too: all nodes that there are
    have hfirst : q.start < q.map.getWidth * q.map.getHeight := by
      have hindexed := hq.indexed.2
      rw [represents_int] at hindexed
      rw [hq.startNode, hcells, index]
      omega
    have hsub : q.end_ :: index q.map b :: order ⊆ List.range (q.map.getWidth * q.map.getHeight) := by
      simp only [List.cons_subset, List.mem_range]
      exact ⟨hinside, index_lt hq.numbered hb, fun v hv => List.mem_range.mpr
        ((h.node_lt hq hconfined hv).elim (fun heq => heq ▸ hfirst) id)⟩
    have hle := (List.subperm_of_subset hnodup hsub).length_le
    rw [List.length_range, List.length_cons, List.length_cons, hcells] at hle
    omega

/-- The loops come to their end, and find nothing but what can be reached. -/
theorem Around.columns (hq : Outside q start end_) (h : Around q start end_ current a) {order : List Nat}
    (hrounds : Rounds q.start order a) :
    ∃ a', visitColumns q.std q.map q.userdata q.heuristic q.getCost current q.end_ a = some a' ∧
      Around q start end_ current a' ∧ Rounds q.start order a' :=
  visitColumns_turns q current (fun a => Around q start end_ current a ∧ Rounds q.start order a)
    (fun _ ha => ha.1.confined.room) (fun _ ha => ha.1.loopsFit hq)
    (fun _ _ _ ha hx hy hturn => ⟨ha.1.turn hq hx hy hturn, ha.2.turn ha.1.confined.own hturn⟩) a ⟨h, hrounds⟩

/-- **A search whose end cannot be reached** finds nothing. -/
theorem search_confined (hq : Outside q start end_) (hne : q.end_ ≠ q.start)
    (hreach : ¬ ReflTransGen (Passes q.map q.userdata start) start end_) :
    ∀ (left : Nat) (a : AStar K) (order : List Nat), Confined q start end_ a → Rounds q.start order a →
    q.end_ ∉ order →
    ∃ a', search q.std q.map q.userdata q.heuristic q.getCost q.end_ left a = some a' ∧ a'.lastPath = []
  | 0, a, order, h, hrounds, hend => ⟨_, if_pos (hrounds.represents hq h hend hne hreach), h.lastPath⟩
  | left + 1, a, order, h, hrounds, hend => by
    obtain ⟨heap, hstate, hheap, hnode⟩ := popOpen_heap q.std { a with count := a.count + 1 }
    unfold search
    cases hpop : ({ a with count := a.count + 1 } : AStar K).popOpen q.std with
    | mk a₁ found =>
      rw [hpop] at hstate hnode
      simp only at hstate hnode
      subst hstate
      cases found with
      | none => exact ⟨_, rfl, h.lastPath⟩
      | some current =>
        obtain ⟨⟨item, hitem, rfl⟩, hown, hopen⟩ := hnode current rfl
        have hother : item.node ≠ q.end_ := fun heq => hreach (by
          rw [← h.endAt, ← heq]
          exact h.found item.node (h.items item hitem) fun _ hroot => hne (heq.symm.trans hroot))
        simp only
        rw [if_neg hother]
        obtain ⟨a₂, hcolumns, h₂, hrounds₂⟩ := (h.close hheap hitem hopen).columns hq
          (hrounds.close heap (h.items item hitem) hopen)
        rw [hcolumns]
        exact search_confined hq hne hreach left a₂ (item.node :: order) h₂.confined hrounds₂
          (List.not_mem_cons_of_ne_of_not_mem (Ne.symm hother) hend)

/-- A search that begins at its end finds nothing. -/
theorem search_at_end (hend : q.end_ = index q.map end_) (h : Opened q.map start end_ a)
    (hsame : index q.map start = index q.map end_) : ∀ (left : Nat),
    ∃ a', search q.std q.map q.userdata q.heuristic q.getCost q.end_ left a = some a' ∧ a'.lastPath = []
  | 0 => ⟨_, if_pos (by rw [h.count]; decide), h.lastPath⟩
  | left + 1 => by
    obtain ⟨heap, hstate, -, hnode⟩ := popOpen_heap q.std { a with count := a.count + 1 }
    unfold search
    cases hpop : ({ a with count := a.count + 1 } : AStar K).popOpen q.std with
    | mk a₁ found =>
      rw [hpop] at hstate hnode
      simp only at hstate hnode
      cases found with
      | none => exact ⟨a₁, rfl, by rw [hstate]; exact h.lastPath⟩
      | some current =>
        obtain ⟨⟨item, hitem, rfl⟩, hown, -⟩ := hnode current rfl
        have hfound : item.node = q.end_ := (h.items item hitem).trans (hsame.trans hend.symm)
        have hroot : (a₁.nodes item.node).parent = none := by
          rw [hstate]
          exact (h.new item.node hown).1
        simp only
        rw [if_pos hfound]
        unfold walk
        rw [hroot]
        exact ⟨a₁, rfl, by rw [hstate]; exact h.lastPath⟩

variable [NatCast K] [OfScientific K]

omit [Add K] [LT K] [DecidableLT K] [BEq K] [NatCast K] [OfScientific K] in
/-- A run begins where the search has come to its start only. -/
theorem Opened.confined (hq : Outside q start end_) (h : Opened q.map start end_ a)
    (hne : index q.map start ≠ index q.map end_) : Confined q start end_ a := by
  have hown : (a.nodes q.start).generation = a.searchGeneration := (h.own q.start).mpr (Or.inl hq.startNode)
  have hplace : place a q.start = start := by
    rw [hq.startNode]
    exact h.startAt hne
  have hend : place a q.end_ = end_ := by
    rw [hq.endNode]
    exact h.endAt
  refine ⟨h.room hq.numbered, h.lastPath, fun item hitem => ?_, hown, fun _ => ⟨hplace, fun item hitem => ?_⟩, fun v hv => ?_,
    fun v hv _ => ?_, hend⟩
  · obtain hitem : item.node = q.start := (h.items item hitem).trans hq.startNode.symm
    exact ⟨hitem ▸ hown, Or.inl hitem⟩
  · exact (h.items item hitem).trans hq.startNode.symm
  · rcases (h.own v).mp hv with rfl | rfl
    · rw [← hq.startNode, hplace, hq.startNode]
    · rw [h.endAt]
  · obtain rfl : v = q.start := hv.2.resolve_right fun hparent => hparent (h.new v hv.1).1
    rw [hplace]

end Libws.Core.AStar
