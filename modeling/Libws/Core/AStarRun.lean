import Libws.Core.AStarPath

/-!
# One run of `findPath`

A start outside the map may share its node with a cell of the map, and then the nodes are not where
`Shows` has them.  What follows holds for any start.

* `Opened`, `opens_spec` — the state in which the loop begins;
* `popOpen_heap`, `popOpen_keeps` — `popOpen` changes the heap only, and loses no live item;
* `tick` — the run in single steps, with the variables of the loops in `Control`; `search_ticks`
  tells that the steps lead to where `search` ends.
-/

set_option autoImplicit false

namespace Libws.Core.AStar

open Libws.Heap Libws.Integer Libws.Loop Relation

variable {U K : Type} [Zero K] [Add K] [LT K] [DecidableLT K] [BEq K]

/-! ## `popOpen` and `walk` -/

omit [Zero K] [Add K] in
/-- `popOpen` takes items from the heap, and the node that it gives is open and had one. -/
theorem popOpen_heap (std : HeapAlgorithms) (a : AStar K) :
    ∃ heap, (a.popOpen std).1 = { a with openHeap := heap } ∧ (∀ item ∈ heap, item ∈ a.openHeap) ∧
      ∀ v, (a.popOpen std).2 = some v → (∃ item ∈ a.openHeap, item.node = v) ∧
        (a.nodes v).generation = a.searchGeneration ∧ (a.nodes v).isClosed = false := by
  rcases popOpen_cases std a with ⟨hpop, -⟩ | ⟨item, rest, hpop, htakes⟩
  · rw [hpop]
    exact ⟨[], rfl, nofun, nofun⟩
  · rw [hpop]
    refine ⟨rest, rfl, htakes.mem.2, fun v hv => ?_⟩
    obtain rfl := Option.some.inj hv
    obtain ⟨hown, hopen, -⟩ := upToDate_iff.mp htakes.kept
    exact ⟨⟨item, htakes.mem.1, rfl⟩, hown, hopen⟩

omit [Zero K] [Add K] in
/-- An item with the `f` of its open node is popped or left, and so the heap is not empty for the search. -/
theorem popOpen_keeps (std : HeapAlgorithms) (a : AStar K) {item : HeapItem K} (hitem : item ∈ a.openHeap)
    (hown : (a.nodes item.node).generation = a.searchGeneration) (hopen : (a.nodes item.node).isClosed = false)
    (hf : (item.f == (a.nodes item.node).f) = true) :
    ∃ v, (a.popOpen std).2 = some v ∧ (item.node = v ∨ item ∈ (a.popOpen std).1.openHeap) := by
  have hkeep := upToDate_iff.mpr ⟨hown, hopen, hf⟩
  rcases popOpen_cases std a with ⟨-, hdead⟩ | ⟨taken, rest, hpop, htakes⟩
  · rw [hdead item hitem] at hkeep
    cases hkeep
  · rw [hpop]
    exact ⟨taken.node, rfl, (htakes.keeps hitem hkeep).imp_left (congrArg HeapItem.node)⟩

omit [Zero K] [Add K] [LT K] [DecidableLT K] [BEq K] in
/-- `walk` only puts nodes in front of `lastPath`. -/
theorem walk_lastPath : ∀ (left current : Nat) {a a' : AStar K}, a.walk left current = some a' →
    ∃ path, a' = { a with lastPath := path ++ a.lastPath }
  | 0, _, _, _, hwalk => by cases hwalk
  | left + 1, current, a, a', hwalk => by
    unfold walk at hwalk
    split at hwalk
    · cases hwalk
      exact ⟨[], rfl⟩
    · obtain ⟨path, rfl⟩ := walk_lastPath left _ hwalk
      exact ⟨path ++ [current], by simp only [List.append_assoc, List.singleton_append]⟩

/-! ## What the steps leave as it is -/

omit [Add K] [LT K] [DecidableLT K] [BEq K] in
/-- `getNode` changes only where a node of this search is. -/
theorem arrive_keeps (map : AbstractMap U) (a : AStar K) (c : Int × Int) {v : Nat}
    (hv : (a.nodes v).generation = a.searchGeneration) :
    ∃ x y, (arrive map a c).nodes v = { a.nodes v with x := x, y := y } := by
  by_cases hc : v = index map c
  · subst hc
    exact ⟨c.1, c.2, by rw [arrive_node, touch, if_neg (not_not.mpr hv)]⟩
  · exact ⟨_, _, arrive_other map a c hc⟩

/-- No visit takes a node from the search, and none closes or opens one. -/
theorem turn_same {q : Query U K} {current : Nat} {a a' : AStar K} {c : Int × Int} (hturn : Turn q current a c a')
    {v : Nat} (hv : (a.nodes v).generation = a.searchGeneration) :
    (a'.nodes v).generation = a'.searchGeneration ∧ (a'.nodes v).isClosed = (a.nodes v).isClosed := by
  obtain ⟨x, y, harrive⟩ := arrive_keeps q.map a c hv
  have hown := (arrive_own q.map a c v).mpr (Or.inr hv)
  cases hturn with
  | skip => exact ⟨hv, rfl⟩
  | closed | keep => exact ⟨hown, by rw [harrive]⟩
  | reach n =>
    obtain ⟨-, hgeneration, hclosed⟩ := reach_same q.std (arrive q.map a c) (index q.map c) current n
      (costOver q (arrive q.map a c) current c) v
    exact ⟨hgeneration.trans hown, by rw [hclosed, harrive]⟩

omit [Zero K] [Add K] [LT K] [DecidableLT K] [BEq K] in
/-- To close a node changes nothing else. -/
theorem setNode_closed (a : AStar K) (current v : Nat) :
    (a.setNode current { a.nodes current with isClosed := true }).nodes v =
      { a.nodes v with isClosed := decide (v = current) || (a.nodes v).isClosed } := by
  by_cases hv : v = current
  · subst hv
    simp only [setNode, Function.update_self, decide_true, Bool.true_or]
  · simp only [setNode, Function.update_of_ne hv, hv, decide_false, Bool.false_or]

/-! ## The steps of a run -/

/-- Where `findPath` is in its loops: before a round of `while` with `left` rounds to go, before a
round of the loop over `x`, before one of the loop over `y`, or behind them. -/
inductive Control where
  | round (left : Nat)
  | columns (left current : Nat) (x : Int)
  | column (left current : Nat) (x y : Int)
  | finished
  deriving DecidableEq, Repr

/-- The node that the two loops go around. -/
def Control.current : Control → Option Nat
  | .columns _ current _ | .column _ current _ _ => some current
  | .round _ | .finished => none

/-- One step of the loops. -/
def tick (q : Query U K) : AStar K × Control → Option (AStar K × Control)
  | (a, .round 0) =>
    if int.Represents (a.count + 1) then some ({ a with count := a.count + 1 }, .finished) else none
  | (a, .round (left + 1)) =>
    match { a with count := a.count + 1 }.popOpen q.std with
    | (a, none) => some (a, .finished)
    | (a, some current) =>
      if current = q.end_ then (a.walk (a.mapNodes * NUM_NODE_SIZE + 1) current).map fun a => (a, .finished)
      else some (a.setNode current { a.nodes current with isClosed := true },
        .columns left current ((a.nodes current).x - 1))
  | (a, .columns left current x) =>
    if int.Represents x ∧ int.Represents ((a.nodes current).x + 1) then
      if x ≤ (a.nodes current).x + 1 then some (a, .column left current x ((a.nodes current).y - 1))
      else some (a, .round left)
    else none
  | (a, .column left current x y) =>
    if int.Represents y ∧ int.Represents ((a.nodes current).y + 1) then
      if y ≤ (a.nodes current).y + 1 then
        (visit q.std q.map q.userdata q.heuristic q.getCost current q.end_ a (x, y)).map
          fun a => (a, .column left current x (y + 1))
      else some (a, .columns left current (x + 1))
    else none
  | (_, .finished) => none

/-- One step leads from `m` to `m'`. -/
def Ticks (q : Query U K) (m m' : AStar K × Control) : Prop := tick q m = some m'

/-- What a step can do. -/
inductive TickCases (q : Query U K) : AStar K × Control → AStar K × Control → Prop where
  | spent (a : AStar K) : TickCases q (a, .round 0) ({ a with count := a.count + 1 }, .finished)
  | empty (a : AStar K) (left : Nat) (heap : List (HeapItem K)) (hheap : ∀ item ∈ heap, item ∈ a.openHeap) :
    TickCases q (a, .round (left + 1)) ({ a with count := a.count + 1, openHeap := heap }, .finished)
  | found (a : AStar K) (left : Nat) (heap : List (HeapItem K)) (path : List Nat)
      (hheap : ∀ item ∈ heap, item ∈ a.openHeap) :
    TickCases q (a, .round (left + 1)) ({ a with count := a.count + 1, openHeap := heap, lastPath := path }, .finished)
  | close (a : AStar K) (left : Nat) (heap : List (HeapItem K)) (item : HeapItem K)
      (hheap : ∀ other ∈ heap, other ∈ a.openHeap) (hitem : item ∈ a.openHeap)
      (hown : (a.nodes item.node).generation = a.searchGeneration) (hopen : (a.nodes item.node).isClosed = false) :
    TickCases q (a, .round (left + 1))
      (({ a with count := a.count + 1, openHeap := heap } : AStar K).setNode item.node
        { a.nodes item.node with isClosed := true }, .columns left item.node ((a.nodes item.node).x - 1))
  | enter (a : AStar K) (left current : Nat) (x : Int) (hle : x ≤ (place a current).1 + 1) :
    TickCases q (a, .columns left current x) (a, .column left current x ((place a current).2 - 1))
  | leave (a : AStar K) (left current : Nat) (x : Int) : TickCases q (a, .columns left current x) (a, .round left)
  | visit (a a' : AStar K) (left current : Nat) (x y : Int) (hle : y ≤ (place a current).2 + 1)
      (hvisit : visit q.std q.map q.userdata q.heuristic q.getCost current q.end_ a (x, y) = some a') :
    TickCases q (a, .column left current x y) (a', .column left current x (y + 1))
  | next (a : AStar K) (left current : Nat) (x y : Int) :
    TickCases q (a, .column left current x y) (a, .columns left current (x + 1))

theorem tick_cases {q : Query U K} {m m' : AStar K × Control} (h : Ticks q m m') : TickCases q m m' := by
  obtain ⟨a, control⟩ := m
  cases control with
  | round left =>
    cases left with
    | zero =>
      rw [Ticks, tick] at h
      split at h
      · cases h
        exact .spent a
      · cases h
    | succ left =>
      obtain ⟨heap, hstate, hheap, hnode⟩ := popOpen_heap q.std { a with count := a.count + 1 }
      rw [Ticks, tick] at h
      cases hpop : ({ a with count := a.count + 1 } : AStar K).popOpen q.std with
      | mk a₁ found =>
        rw [hpop] at hstate hnode h
        simp only at hstate hnode h
        subst hstate
        cases found with
        | none =>
          cases h
          exact .empty a left heap hheap
        | some current =>
          obtain ⟨⟨item, hitem, rfl⟩, hown, hopen⟩ := hnode current rfl
          simp only at h
          split at h
          · obtain ⟨a₂, hwalk, rfl⟩ := Option.map_eq_some_iff.mp h
            obtain ⟨path, rfl⟩ := walk_lastPath _ _ hwalk
            exact .found a left heap _ hheap
          · cases h
            exact .close a left heap item hheap hitem hown hopen
  | columns left current x =>
    rw [Ticks, tick] at h
    split_ifs at h with hfits hle
    · cases h
      exact .enter a left current x hle
    · cases h
      exact .leave a left current x
  | column left current x y =>
    rw [Ticks, tick] at h
    split_ifs at h with hfits hle
    · obtain ⟨a', hvisit, rfl⟩ := Option.map_eq_some_iff.mp h
      exact .visit a a' left current x y hle hvisit
    · cases h
      exact .next a left current x y
  | finished => cases h

/-- So many steps of the loops. -/
def ticks (q : Query U K) : Nat → AStar K × Control → Option (AStar K × Control)
  | 0, m => some m
  | n + 1, m => (tick q m).bind (ticks q n)

theorem ticks_reach {q : Query U K} : ∀ (n : Nat) {m m' : AStar K × Control}, ticks q n m = some m' →
    ReflTransGen (Ticks q) m m'
  | 0, _, _, h => by
    cases h
    exact .refl
  | n + 1, m, m', h => by
    obtain ⟨m₁, htick, hrest⟩ := Option.bind_eq_some_iff.mp h
    exact .head htick (ticks_reach n hrest)

theorem column_ticks (q : Query U K) (left current : Nat) (x : Int) : ∀ (n : Nat) (y : Int) {a a' : AStar K},
    forUpTo int.Represents (fun a => (a.nodes current).y + 1)
      (fun y a => visit q.std q.map q.userdata q.heuristic q.getCost current q.end_ a (x, y)) n y a = some a' →
    ReflTransGen (Ticks q) (a, .column left current x y) (a', .columns left current (x + 1))
  | 0, _, _, _, hloop => by cases hloop
  | n + 1, y, a, a', hloop => by
    unfold forUpTo at hloop
    split_ifs at hloop with hfits hle
    · obtain ⟨a₁, hvisit, hrest⟩ := Option.bind_eq_some_iff.mp hloop
      refine .head ?_ (column_ticks q left current x n (y + 1) hrest)
      rw [Ticks, tick, if_pos hfits, if_pos hle, hvisit, Option.map_some]
    · cases hloop
      refine .single ?_
      rw [Ticks, tick, if_pos hfits, if_neg hle]

theorem columns_ticks (q : Query U K) (left current : Nat) : ∀ (n : Nat) (x : Int) {a a' : AStar K},
    forUpTo int.Represents (fun a => (a.nodes current).x + 1)
      (fun x a => visitColumn q.std q.map q.userdata q.heuristic q.getCost current q.end_ x a) n x a = some a' →
    ReflTransGen (Ticks q) (a, .columns left current x) (a', .round left)
  | 0, _, _, _, hloop => by cases hloop
  | n + 1, x, a, a', hloop => by
    unfold forUpTo at hloop
    split_ifs at hloop with hfits hle
    · obtain ⟨a₁, hcolumn, hrest⟩ := Option.bind_eq_some_iff.mp hloop
      refine .head ?_ ((column_ticks q left current x _ _ hcolumn).trans (columns_ticks q left current n (x + 1) hrest))
      rw [Ticks, tick, if_pos hfits, if_pos hle]
    · cases hloop
      refine .single ?_
      rw [Ticks, tick, if_pos hfits, if_neg hle]

/-- **The steps lead to where `search` ends.** -/
theorem search_ticks (q : Query U K) : ∀ (left : Nat) {a a' : AStar K},
    search q.std q.map q.userdata q.heuristic q.getCost q.end_ left a = some a' →
    ReflTransGen (Ticks q) (a, .round left) (a', .finished)
  | 0, a, a', hsearch => by
    unfold search at hsearch
    split at hsearch
    · rename_i hfits
      cases hsearch
      refine .single ?_
      rw [Ticks, tick, if_pos hfits]
    · cases hsearch
  | left + 1, a, a', hsearch => by
    unfold search at hsearch
    cases hpop : ({ a with count := a.count + 1 } : AStar K).popOpen q.std with
    | mk a₁ found =>
      rw [hpop] at hsearch
      cases found with
      | none =>
        cases hsearch
        refine .single ?_
        rw [Ticks, tick, hpop]
      | some current =>
        simp only at hsearch
        split at hsearch
        · rename_i hend
          refine .single ?_
          rw [Ticks, tick, hpop]
          simp only
          rw [if_pos hend, hsearch, Option.map_some]
        · rename_i hend
          split at hsearch
          · cases hsearch
          · rename_i a₂ hcolumns
            refine .head ?_ ((columns_ticks q left current _ _ hcolumns).trans (search_ticks q left hsearch))
            rw [Ticks, tick, hpop]
            simp only
            rw [if_neg hend]
            simp only [setNode, Function.update_self]

/-! ## The beginning of a run -/

variable [NatCast K] [OfScientific K]

/-- The state of a run that begins. -/
structure Opened (map : AbstractMap U) (start end_ : Int × Int) (a : AStar K) : Prop where
  room : Numbered map → Room map a.mapNodes
  count : a.count = 0
  lastPath : a.lastPath = []
  indexed : Indexed map start ∧ Indexed map end_
  allocated : Allocated map a start ∧ Allocated map a end_
  items : ∀ item ∈ a.openHeap, item.node = index map start
  pushed : ∃ item ∈ a.openHeap, item.f = (a.nodes (index map start)).f
  own : ∀ v, (a.nodes v).generation = a.searchGeneration ↔ v = index map start ∨ v = index map end_
  new : ∀ v, (a.nodes v).generation = a.searchGeneration →
    (a.nodes v).parent = none ∧ (a.nodes v).g = 0 ∧ (a.nodes v).isClosed = false
  startAt : index map start ≠ index map end_ → place a (index map start) = start
  endAt : place a (index map end_) = end_

omit [Add K] [LT K] [DecidableLT K] [BEq K] [NatCast K] [OfScientific K] in
/-- `getNode` leaves the nodes of a run that begins new. -/
theorem arrive_new (map : AbstractMap U) {a : AStar K} (c : Int × Int)
    (h : ∀ v, (a.nodes v).generation = a.searchGeneration →
      (a.nodes v).parent = none ∧ (a.nodes v).g = 0 ∧ (a.nodes v).isClosed = false) (v : Nat)
    (hv : ((arrive map a c).nodes v).generation = (arrive map a c).searchGeneration) :
    ((arrive map a c).nodes v).parent = none ∧ ((arrive map a c).nodes v).g = 0 ∧
      ((arrive map a c).nodes v).isClosed = false := by
  by_cases hc : v = index map c
  · subst hc
    rw [arrive_node, touch]
    split
    · exact ⟨rfl, rfl, rfl⟩
    · rename_i hown
      exact h _ (not_not.mp hown)
  · rw [arrive_own, or_iff_right hc] at hv
    rw [arrive_other map a c hc]
    exact h v hv

omit [BEq K] in
theorem opens_spec {std : HeapAlgorithms} {map : AbstractMap U} {a a₀ : AStar K}
    {start end_ : Int × Int} {userdata : U}
    (h : Fresh a) (hopens : opens std map a start end_ userdata = some a₀) :
    Opened map start end_ a₀ ∧ map.isBlock end_.1 end_.2 userdata = false ∧
      (∃ a₁, a.resizeMap (int.cast map.getWidth) (int.cast map.getHeight) = some a₁ ∧ a₀.mapNodes = a₁.mapNodes) ∧
      a₀.maxCount = a.maxCount := by
  have hclear : Fresh { a with lastPath := [], openHeap := [] } := ⟨h.generation, h.nodes⟩
  obtain ⟨-, hfree, a₁, hprepare, hs, he, rfl⟩ := opens_eq hopens
  have hold := (hclear.prepare hprepare).2
  obtain ⟨hheap, hpath, hmax⟩ := prepare_same hprepare
  have hroom : Numbered map → Room map a₁.mapNodes := fun hnumbered => by
    obtain ⟨a₂, hprepare', hroom⟩ := prepare_room hnumbered a
    rw [hprepare] at hprepare'
    exact Option.some.inj hprepare' ▸ hroom
  have hrows := prepare_rows hprepare
  have hnew := arrive_new map start fun v hv => absurd hv (hold v)
  refine ⟨⟨hroom, rfl, hpath, ⟨hs.1, he.1⟩, ⟨hs.2, he.2⟩, fun item hitem => ?_, ?_, fun v => ?_,
    arrive_new map end_ hnew, fun hne => ?_, arrive_place map _ end_⟩, hfree, hrows, hmax⟩
  · have hmem := (std.pushHeap_perm _ _).mem_iff.mp hitem
    change item ∈ a₁.openHeap ++ [_] at hmem
    rw [hheap, List.nil_append] at hmem
    rw [List.mem_singleton.mp hmem]
  · exact ⟨_, (std.pushHeap_perm _ _).mem_iff.mpr (List.mem_append_right _ (List.mem_singleton_self _)), rfl⟩
  · change ((arrive map (arrive map a₁ start) end_).nodes v).generation =
      (arrive map (arrive map a₁ start) end_).searchGeneration ↔ _
    rw [arrive_own, arrive_own, or_iff_left (hold v), or_comm]
  · change place (arrive map (arrive map a₁ start) end_) _ = _
    rw [place, arrive_other map _ end_ hne]
    exact arrive_place map a₁ start

end Libws.Core.AStar
