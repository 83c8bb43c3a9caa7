import Mathlib.Algebra.Order.Ring.Rat
import Libws.Lib.Machine
import Libws.Core.AStarSearch

/-!
# `findPath`, and the path that it writes down

* `Fresh` — what any earlier calls leave behind;
* `opens`, `findPath_opens` — `findPath` up to its loop;
* `findPath_spec`, `findPath_returns` — the search loop from the start of `findPath`;
* `every_path_walkable` — the path of every search that succeeds.
-/

set_option autoImplicit false

namespace Libws.Core.AStar

open Libws.Heap Libws.Integer Libws.Loop Libws.Machine Libws.Search

variable {U K : Type} [Zero K] [Add K] [LT K] [DecidableLT K] [BEq K]

/-! ## Earlier searches -/

/-- What every call leaves behind: no node is of a later search. -/
structure Fresh (a : AStar K) : Prop where
  generation : a.searchGeneration < 2 ^ 32
  nodes : ∀ v, (a.nodes v).generation ≤ a.searchGeneration

omit [Zero K] [Add K] [LT K] [DecidableLT K] [BEq K] in
theorem Fresh.setNode {a : AStar K} (h : Fresh a) (v : Nat) (value : PathNode K)
    (hvalue : value.generation ≤ a.searchGeneration) : Fresh (a.setNode v value) := by
  refine ⟨h.generation, fun u => ?_⟩
  by_cases hu : u = v
  · subst hu
    simp only [AStar.setNode, Function.update_self]
    exact hvalue
  · simp only [AStar.setNode, Function.update_of_ne hu]
    exact h.nodes u

omit [Add K] [LT K] [DecidableLT K] [BEq K] in
theorem Fresh.resizeMap {a a' : AStar K} (h : Fresh a) {w n : Int} (hresize : a.resizeMap w n = some a') :
    Fresh a' := by
  unfold AStar.resizeMap at hresize
  simp only at hresize
  split_ifs at hresize
  · cases hresize
    refine ⟨h.generation, fun v => ?_⟩
    simp only
    split
    · exact Nat.zero_le _
    · exact h.nodes v
  · cases hresize
    exact h

omit [Add K] [LT K] [DecidableLT K] [BEq K] in
/-- After `++searchGeneration` no node is of the search that begins. -/
theorem Fresh.nextGeneration {a : AStar K} (h : Fresh a) :
    Fresh a.nextGeneration ∧ ∀ v, (a.nextGeneration.nodes v).generation ≠ a.nextGeneration.searchGeneration := by
  have hlt := h.generation
  unfold AStar.nextGeneration
  simp only
  split
  · exact ⟨⟨Nat.one_lt_two_pow (by decide), fun v => Nat.zero_le _⟩, fun v => Nat.zero_ne_one⟩
  · rename_i hwrap
    have hsucc : (a.searchGeneration + 1) % 2 ^ 32 = a.searchGeneration + 1 := by omega
    rw [hsucc]
    exact ⟨⟨by simp only; omega, fun v => Nat.le_succ_of_le (h.nodes v)⟩,
      fun v => Nat.ne_of_lt (Nat.lt_succ_of_le (h.nodes v))⟩

omit [Add K] [LT K] [DecidableLT K] [BEq K] in
theorem Fresh.arrive {a : AStar K} (h : Fresh a) (map : AbstractMap U) (c : Int × Int) : Fresh (arrive map a c) :=
  h.setNode _ _ (touch_generation map a c).le

omit [Zero K] [BEq K] in
theorem Fresh.reach {a : AStar K} (h : Fresh a) (std : HeapAlgorithms) (v current : Nat) (n g : K) :
    Fresh (a.reach std v current n g) := by
  have hset := h.setNode v { a.nodes v with h := n, g := g, f := g + n, parent := some current } (h.nodes v)
  exact ⟨hset.generation, hset.nodes⟩

theorem Fresh.visit {a a' : AStar K} (h : Fresh a) {std : HeapAlgorithms} {map : AbstractMap U} {userdata : U}
    {heuristic getCost : Int → Int → Int → Int → K} {current end_ : Nat} {c : Int × Int}
    (hvisit : visit std map userdata heuristic getCost current end_ a c = some a') : Fresh a' := by
  cases turn_of_visit (q := ⟨std, map, userdata, heuristic, getCost, current, end_⟩) hvisit with
  | skip => exact h
  | closed | keep => exact h.arrive map c
  | reach => exact (h.arrive map c).reach ..

theorem Fresh.visitColumns {std : HeapAlgorithms} {map : AbstractMap U} {userdata : U}
    {heuristic getCost : Int → Int → Int → Int → K} {current end_ : Nat} {a a' : AStar K} (h : Fresh a)
    (hvisits : AStar.visitColumns std map userdata heuristic getCost current end_ a = some a') : Fresh a' := by
  have hcolumn : ∀ x (a a' : AStar K), Fresh a →
      visitColumn std map userdata heuristic getCost current end_ x a = some a' → Fresh a' :=
        fun x a a' h hcolumn => by
    obtain ⟨-, h', -⟩ := forUpTo_inv (fun _ => Fresh) (fun _ _ _ h _ hvisit => h.visit hvisit) _ _ h hcolumn
    exact h'
  obtain ⟨-, h', -⟩ := forUpTo_inv (fun _ => Fresh) (fun x a a' h _ => hcolumn x a a' h) _ _ h hvisits
  exact h'

omit [Zero K] [Add K] in
theorem Fresh.popOpen (std : HeapAlgorithms) {a : AStar K} (h : Fresh a) : Fresh (a.popOpen std).1 := by
  rw [popOpen_eq]
  exact ⟨h.generation, h.nodes⟩

omit [Zero K] [Add K] [LT K] [DecidableLT K] [BEq K] in
theorem Fresh.walk : ∀ (left current : Nat) {a a' : AStar K}, Fresh a → a.walk left current = some a' → Fresh a'
  | 0, _, _, _, _, hwalk => by cases hwalk
  | left + 1, current, a, a', h, hwalk => by
    unfold AStar.walk at hwalk
    split at hwalk
    · cases hwalk
      exact h
    · rename_i parent _
      exact Fresh.walk left parent (a := { a with lastPath := current :: a.lastPath }) ⟨h.generation, h.nodes⟩ hwalk

theorem Fresh.search {std : HeapAlgorithms} {map : AbstractMap U} {userdata : U}
    {heuristic getCost : Int → Int → Int → Int → K} {end_ : Nat} : ∀ (left : Nat) {a a' : AStar K}, Fresh a →
    search std map userdata heuristic getCost end_ left a = some a' → Fresh a'
  | 0, a, _, h, hsearch => by
    unfold AStar.search at hsearch
    split at hsearch
    · cases hsearch
      exact ⟨h.generation, h.nodes⟩
    · cases hsearch
  | left + 1, a, a', h, hsearch => by
    have hpop : Fresh (({ a with count := a.count + 1 } : AStar K).popOpen std).1 :=
      Fresh.popOpen std ⟨h.generation, h.nodes⟩
    unfold AStar.search at hsearch
    generalize ({ a with count := a.count + 1 } : AStar K).popOpen std = result at hsearch hpop
    obtain ⟨a₁, node⟩ := result
    cases node with
    | none =>
      cases hsearch
      exact hpop
    | some current =>
      simp only at hsearch
      split at hsearch
      · exact Fresh.walk _ _ hpop hsearch
      · split at hsearch
        · cases hsearch
        · rename_i a₃ hvisits
          exact Fresh.search left ((hpop.setNode current { a₁.nodes current with isClosed := true }
            (hpop.nodes current)).visitColumns hvisits) hsearch

variable [NatCast K] [OfScientific K]

omit [LT K] [DecidableLT K] [BEq K] in
/-- What `findPath` does before its first `getNode`. -/
theorem prepare_eq {map : AbstractMap U} {a a' : AStar K} (hprepare : a.prepare map = some a') :
    ∃ a₁, a.resizeMap (int.cast map.getWidth) (int.cast map.getHeight) = some a₁ ∧
      a' = { a₁.nextGeneration with
        heuristic := some (a₁.nextGeneration.heuristic.getD manhattanDistance)
        getCost := some (a₁.nextGeneration.getCost.getD commonCost) } := by
  unfold prepare at hprepare
  obtain ⟨a₁, hresize, ha'⟩ := Option.bind_eq_some_iff.mp hprepare
  exact ⟨a₁, hresize, (Option.some.inj ha').symm⟩

omit [LT K] [DecidableLT K] [BEq K] in
theorem Fresh.prepare {a a' : AStar K} (h : Fresh a) {map : AbstractMap U} (hprepare : a.prepare map = some a') :
    Fresh a' ∧ ∀ v, (a'.nodes v).generation ≠ a'.searchGeneration := by
  obtain ⟨a₁, hresize, rfl⟩ := prepare_eq hprepare
  obtain ⟨hnext, hnew⟩ := (h.resizeMap hresize).nextGeneration
  exact ⟨⟨hnext.generation, hnext.nodes⟩, hnew⟩

omit [Add K] [LT K] [DecidableLT K] [BEq K] [NatCast K] [OfScientific K] in
theorem Fresh.getNode {a a' : AStar K} (h : Fresh a) {map : AbstractMap U} {x y : Int} {node : Option Nat}
    (hnode : a.getNode x y (int.cast map.getWidth) = some (a', node)) : Fresh a' := by
  rw [getNode_eq map a (x, y)] at hnode
  split_ifs at hnode
  · cases hnode
    exact h.arrive map (x, y)
  · cases hnode
    exact h

theorem Fresh.findPath {a a' : AStar K} (h : Fresh a) {std : HeapAlgorithms} {map : AbstractMap U}
    {startX startY endX endY : Int} {userdata : U} {found : Bool}
    (hfind : a.findPath std map startX startY endX endY userdata = some (a', found)) : Fresh a' := by
  have hclear : Fresh { a with lastPath := [], openHeap := [] } := ⟨h.generation, h.nodes⟩
  unfold AStar.findPath at hfind
  simp only at hfind
  split at hfind
  · cases hfind
    exact hclear
  split at hfind
  · cases hfind
    exact hclear
  obtain ⟨a₁, hprepare, hfind⟩ := Option.bind_eq_some_iff.mp hfind
  obtain ⟨⟨a₂, start⟩, hstart, hfind⟩ := Option.bind_eq_some_iff.mp hfind
  obtain ⟨⟨a₃, end_⟩, hend, hfind⟩ := Option.bind_eq_some_iff.mp hfind
  have hends : Fresh a₃ := ((hclear.prepare hprepare).1.getNode hstart).getNode hend
  split at hfind
  · split at hfind
    · cases hfind
    · rename_i a₄ hsearch
      cases hfind
      have hbegin : ∀ v, Fresh (({ a₃ with count := 0 } : AStar K).pushOpen std v) := fun _ =>
        ⟨hends.generation, hends.nodes⟩
      have hresult := Fresh.search _ (hbegin _) hsearch
      exact ⟨hresult.generation, hresult.nodes⟩
  · cases hfind
    exact hends

omit [Add K] [LT K] [DecidableLT K] [BEq K] [NatCast K] [OfScientific K] in
theorem Fresh.new (max : Int) : Fresh (new max : AStar K) := ⟨Nat.two_pow_pos 32, fun _ => Nat.le_refl _⟩

/-- After any calls, no node is of a later search. -/
theorem fresh_of_calls {std : HeapAlgorithms} {max : Int} {history : List (Call U K)} {a : AStar K}
    {out : List (Option Bool)} (hrun : runOps (step std) (AStar.new max) history = some (a, out)) : Fresh a := by
  refine runOps_inv (fun s _ _ => Fresh s) (fun s _ _ call s' r hs hstep => ?_) (Fresh.new max) hrun
  cases call with
  | findPath map startX startY endX endY userdata =>
    simp only [step] at hstep
    split at hstep
    · cases hstep
    · rename_i hfind
      cases hstep
      exact hs.findPath hfind
  | setHeuristic heuristic =>
    cases hstep
    exact ⟨hs.generation, hs.nodes⟩
  | setGetCost getCost =>
    cases hstep
    exact ⟨hs.generation, hs.nodes⟩

/-! ## `findPath` -/

/-- What `findPath` searches with between two cells of the map. -/
def query (std : HeapAlgorithms) (map : AbstractMap U) (a : AStar K) (start end_ : Int × Int)
    (userdata : U) : Query U K :=
  ⟨std, map, userdata, a.heuristic.getD manhattanDistance, a.getCost.getD commonCost,
    index map start, index map end_⟩

omit [LT K] [DecidableLT K] [BEq K] in
theorem prepare_same {map : AbstractMap U} {a a' : AStar K} (hprepare : a.prepare map = some a') :
    a'.openHeap = a.openHeap ∧ a'.lastPath = a.lastPath ∧ a'.maxCount = a.maxCount := by
  obtain ⟨a₁, hresize, rfl⟩ := prepare_eq hprepare
  have hsame : a₁.openHeap = a.openHeap ∧ a₁.lastPath = a.lastPath ∧ a₁.maxCount = a.maxCount := by
    unfold resizeMap at hresize
    simp only at hresize
    split_ifs at hresize <;> cases hresize <;> exact ⟨rfl, rfl, rfl⟩
  unfold nextGeneration
  simp only
  split <;> exact hsame

omit [LT K] [DecidableLT K] [BEq K] in
/-- The nodes that are there for `getNode`. -/
theorem prepare_rows {map : AbstractMap U} {a a' : AStar K}
    (hprepare : ({ a with lastPath := [], openHeap := [] } : AStar K).prepare map = some a') :
    ∃ a₁, a.resizeMap (int.cast map.getWidth) (int.cast map.getHeight) = some a₁ ∧ a'.mapNodes = a₁.mapNodes := by
  obtain ⟨a₁, hresize, rfl⟩ := prepare_eq hprepare
  have hrows : a₁.nextGeneration.mapNodes = a₁.mapNodes := by
    unfold nextGeneration
    simp only
    split <;> rfl
  simp only [hrows]
  unfold resizeMap at hresize ⊢
  simp only at hresize ⊢
  split_ifs at hresize ⊢ <;> cases hresize <;> exact ⟨_, rfl, rfl⟩

omit [LT K] [DecidableLT K] [BEq K] in
theorem prepare_total {map : AbstractMap U} {a a₁ : AStar K}
    (hresize : a.resizeMap (int.cast map.getWidth) (int.cast map.getHeight) = some a₁) :
    ∃ a', ({ a with lastPath := [], openHeap := [] } : AStar K).prepare map = some a' ∧
      a'.mapNodes = a₁.mapNodes := by
  cases hprepare : ({ a with lastPath := [], openHeap := [] } : AStar K).prepare map with
  | some a' =>
    obtain ⟨a₂, hresize', hrows⟩ := prepare_rows hprepare
    rw [hresize] at hresize'
    exact ⟨a', rfl, Option.some.inj hresize' ▸ hrows⟩
  | none =>
    unfold prepare at hprepare
    unfold resizeMap at hresize hprepare
    simp only at hresize hprepare
    split_ifs at hresize hprepare <;> cases hprepare

omit [Add K] [LT K] [DecidableLT K] [BEq K] [NatCast K] [OfScientific K] in
/-- The rows for a map are an `int`, and there are as many afterwards. -/
theorem resizeMap_room {map : AbstractMap U} (hnumbered : Numbered map) (a : AStar K) :
    ∃ a₁, a.resizeMap (int.cast map.getWidth) (int.cast map.getHeight) = some a₁ ∧ Room map a₁.mapNodes := by
  have hsize := hnumbered.cells_le
  unfold resizeMap
  rw [hnumbered.cells_eq]
  have hroom : ∀ rows : Nat, map.getWidth * map.getHeight ≤ rows * NUM_NODE_SIZE → Room map rows :=
    fun _ => .mk hnumbered
  generalize map.getWidth * map.getHeight = cells at hsize hroom
  unfold NUM_NODE_SIZE at hroom ⊢
  simp only [represents_int]
  rw [if_pos (by omega)]
  split
  · exact ⟨_, rfl, hroom _ (by simp only; omega)⟩
  · exact ⟨a, rfl, hroom _ (by omega)⟩

omit [LT K] [DecidableLT K] [BEq K] in
/-- There is room for the search of a map. -/
theorem prepare_room {map : AbstractMap U} (hnumbered : Numbered map) (a : AStar K) :
    ∃ a₁, ({ a with lastPath := [], openHeap := [] } : AStar K).prepare map = some a₁ ∧ Room map a₁.mapNodes := by
  obtain ⟨a₁, hresize, hroom⟩ := resizeMap_room hnumbered a
  obtain ⟨a', hprepare, hrows⟩ := prepare_total hresize
  exact ⟨a', hprepare, hrows ▸ hroom⟩

/-- `findPath` up to its loop. -/
def opens (std : HeapAlgorithms) (map : AbstractMap U) (a : AStar K) (start end_ : Int × Int) (userdata : U) :
    Option (AStar K) :=
  let a := { a with lastPath := [], openHeap := [] }
  if start = end_ then none
  else if map.isBlock end_.1 end_.2 userdata then none
  else do
    let a ← a.prepare map
    let (a, s) ← a.getNode start.1 start.2 (int.cast map.getWidth)
    let (a, e) ← a.getNode end_.1 end_.2 (int.cast map.getWidth)
    match s, e with
    | some s, some _ => some ({ a with count := 0 }.pushOpen std s)
    | _, _ => none

omit [BEq K] in
/-- The state in which the loop begins. -/
theorem opens_eq {std : HeapAlgorithms} {map : AbstractMap U} {a a₀ : AStar K}
    {start end_ : Int × Int} {userdata : U} (hopens : opens std map a start end_ userdata = some a₀) :
    start ≠ end_ ∧ map.isBlock end_.1 end_.2 userdata = false ∧
      ∃ a₁, ({ a with lastPath := [], openHeap := [] } : AStar K).prepare map = some a₁ ∧
        (Indexed map start ∧ Allocated map a₁ start) ∧ (Indexed map end_ ∧ Allocated map a₁ end_) ∧
        a₀ = ({ arrive map (arrive map a₁ start) end_ with count := 0 } : AStar K).pushOpen std (index map start) := by
  unfold opens at hopens
  simp only at hopens
  split at hopens
  · cases hopens
  rename_i hne
  split at hopens
  · cases hopens
  rename_i hfree
  obtain ⟨a₁, hprepare, hopens⟩ := Option.bind_eq_some_iff.mp hopens
  rw [getNode_eq] at hopens
  by_cases hs : Indexed map start
  swap
  · rw [if_neg hs] at hopens
    cases hopens
  rw [if_pos hs] at hopens
  simp only [Option.bind_eq_bind, Option.bind_some, getNode_eq] at hopens
  by_cases he : Indexed map end_
  swap
  · rw [if_neg he] at hopens
    cases hopens
  rw [if_pos he] at hopens
  simp only [Option.bind_some] at hopens
  by_cases hs' : Allocated map a₁ start
  · by_cases he' : Allocated map (arrive map a₁ start) end_
    · simp only [if_pos hs', if_pos he'] at hopens
      exact ⟨hne, (Bool.not_eq_true _).mp hfree, a₁, hprepare, ⟨hs, hs'⟩, ⟨he, he'⟩, (Option.some.inj hopens).symm⟩
    · simp only [if_pos hs', if_neg he'] at hopens
      cases hopens
  · simp only [if_neg hs'] at hopens
    cases hopens

omit [BEq K] in
/-- The loop begins if the end is free and there are nodes for the start and the end. -/
theorem opens_total (std : HeapAlgorithms) {map : AbstractMap U} {a a₁ : AStar K}
    {start end_ : Int × Int} {userdata : U}
    (hne : start ≠ end_) (hfree : map.isBlock end_.1 end_.2 userdata = false)
    (hprepare : ({ a with lastPath := [], openHeap := [] } : AStar K).prepare map = some a₁)
    (hs : Indexed map start ∧ Allocated map a₁ start) (he : Indexed map end_ ∧ Allocated map a₁ end_) :
    ∃ a₀, opens std map a start end_ userdata = some a₀ := by
  have he' : Allocated map (arrive map a₁ start) end_ := he.2
  unfold opens
  simp only
  rw [if_neg hne, if_neg (by rw [hfree]; decide), hprepare]
  simp only [Option.bind_eq_bind, Option.bind_some, getNode_eq, if_pos hs.1, if_pos he.1, if_pos hs.2, if_pos he']
  exact ⟨_, rfl⟩

/-- What `findPath` does after that. -/
theorem findPath_opens {std : HeapAlgorithms} {map : AbstractMap U} {a a₀ : AStar K} {start end_ : Int × Int}
    {userdata : U} (hopens : opens std map a start end_ userdata = some a₀) :
    a.findPath std map start.1 start.2 end_.1 end_.2 userdata =
      (search std map userdata (a.heuristic.getD manhattanDistance) (a.getCost.getD commonCost) (index map end_)
        a₀.maxCount.toNat a₀).map fun a' => ({ a' with openHeap := [] }, !a'.lastPath.isEmpty) := by
  obtain ⟨hne, hfree, a₁, hprepare, hs, he, rfl⟩ := opens_eq hopens
  have hcells : ¬ (start.1 = end_.1 ∧ start.2 = end_.2) := fun heq => hne (Prod.ext heq.1 heq.2)
  have he' : Allocated map (arrive map a₁ start) end_ := he.2
  unfold findPath
  simp only
  rw [if_neg hcells, if_neg (by rw [hfree]; decide), hprepare]
  simp only [Option.bind_eq_bind, Option.bind_some, getNode_eq, if_pos hs.1, if_pos he.1, if_pos hs.2, if_pos he']
  change _ = Option.map _ (search std map userdata _ _ (index map end_)
    (arrive map (arrive map a₁ start) end_).maxCount.toNat _)
  cases search std map userdata (a.heuristic.getD manhattanDistance) (a.getCost.getD commonCost) (index map end_)
    (arrive map (arrive map a₁ start) end_).maxCount.toNat
    (({ arrive map (arrive map a₁ start) end_ with count := 0 } : AStar K).pushOpen std (index map start)) with
  | none => rfl
  | some a' => rfl

/-- Without a node for the start, or for the end, `findPath` fails. -/
theorem findPath_rejects (std : HeapAlgorithms) {map : AbstractMap U} {a a₁ : AStar K} {start end_ : Int × Int}
    {userdata : U} (hne : start ≠ end_) (hfree : map.isBlock end_.1 end_.2 userdata = false)
    (hprepare : ({ a with lastPath := [], openHeap := [] } : AStar K).prepare map = some a₁)
    (hs : Indexed map start)
    (he : Indexed map end_) (hnone : ¬ (Allocated map a₁ start ∧ Allocated map a₁ end_)) :
    ∃ a', a.findPath std map start.1 start.2 end_.1 end_.2 userdata = some (a', false) ∧ a'.lastPath = [] := by
  have hcells : ¬ (start.1 = end_.1 ∧ start.2 = end_.2) := fun heq => hne (Prod.ext heq.1 heq.2)
  have hpath := (prepare_same hprepare).2.1
  unfold findPath
  simp only
  rw [if_neg hcells, if_neg (by rw [hfree]; decide), hprepare]
  simp only [Option.bind_eq_bind, Option.bind_some, getNode_eq, if_pos hs, if_pos he]
  by_cases hs' : Allocated map a₁ start
  · have he' : ¬ Allocated map (arrive map a₁ start) end_ := fun he' => hnone ⟨hs', he'⟩
    simp only [if_pos hs', if_neg he']
    exact ⟨_, rfl, hpath⟩
  · simp only [if_neg hs']
    refine ⟨_, rfl, ?_⟩
    split <;> exact hpath

/-- Where an index cannot be computed, `findPath` is undefined. -/
theorem findPath_overflows (std : HeapAlgorithms) {map : AbstractMap U} {a : AStar K} {start end_ : Int × Int}
    {userdata : U} (hne : start ≠ end_) (hfree : map.isBlock end_.1 end_.2 userdata = false)
    (hnone : ¬ (Indexed map start ∧ Indexed map end_)) :
    a.findPath std map start.1 start.2 end_.1 end_.2 userdata = none := by
  have hcells : ¬ (start.1 = end_.1 ∧ start.2 = end_.2) := fun heq => hne (Prod.ext heq.1 heq.2)
  unfold findPath
  simp only
  rw [if_neg hcells, if_neg (by rw [hfree]; decide)]
  cases ({ a with lastPath := [], openHeap := [] } : AStar K).prepare map with
  | none => rfl
  | some a₁ =>
    simp only [Option.bind_eq_bind, Option.bind_some, getNode_eq]
    by_cases hs : Indexed map start
    · simp only [if_pos hs, if_neg fun he => hnone ⟨hs, he⟩, Option.bind_some, Option.bind_none]
    · simp only [if_neg hs, Option.bind_none]

omit [LT K] [DecidableLT K] [BEq K] in
/-- The nodes of a search that begins. -/
theorem Fresh.prepare_shows {a a' : AStar K} (h : Fresh a) {map : AbstractMap U}
    (hprepare : a.prepare map = some a')
    (hroom : Room map a'.mapNodes) (hheap : a.openHeap = []) (hpath : a.lastPath = []) :
    Shows map a' (freshNode map a'.searchGeneration) := by
  obtain ⟨hheap', hpath', -⟩ := prepare_same hprepare
  have hnew := (h.prepare hprepare).2
  refine ⟨hroom, fun v => (if_neg (hnew v)).symm, fun _ => rfl, fun item hitem => ?_, hpath'.trans hpath⟩
  rw [hheap', hheap] at hitem
  cases hitem

omit [Add K] [BEq K] [NatCast K] [OfScientific K] in
/-- The tree of a search that begins. -/
theorem Base.init (q : Query U K) (generation : Nat) :
    Base q [] (freshNode q.map generation) (q.std.pushHeap HeapItem.comp [⟨0, q.start⟩]) := by
  refine ⟨.nil fun v => rfl, fun v => ?_, fun item hitem => ?_⟩
  · simp [freshNode]
  · have hmem := (q.std.pushHeap_perm _ _).mem_iff.mp hitem
    rw [List.mem_singleton.mp hmem]
    exact Or.inl rfl

/-- `findPath` between two cells of the map, the second one not blocked, up to its loop. -/
theorem findPath_begin (std : HeapAlgorithms) {map : AbstractMap U} (hnumbered : Numbered map) {a : AStar K}
    (h : Fresh a) {start end_ : Int × Int}
    (hstart : InMap map start) (hend : InMap map end_) (hne : start ≠ end_) (userdata : U)
    (hfree : map.isBlock end_.1 end_.2 userdata = false) :
    ∃ (a₀ : AStar K) (generation : Nat), Shows map a₀ (freshNode map generation) ∧
      (a₀.nodes (index map end_)).generation = a₀.searchGeneration ∧
      a₀.openHeap = std.pushHeap HeapItem.comp [⟨0, index map start⟩] ∧ a₀.count = 0 ∧
      a.findPath std map start.1 start.2 end_.1 end_.2 userdata =
        (search std map userdata (a.heuristic.getD manhattanDistance) (a.getCost.getD commonCost) (index map end_)
          a.maxCount.toNat a₀).map fun a' => ({ a' with openHeap := [] }, !a'.lastPath.isEmpty) := by
  have hclear : Fresh { a with lastPath := [], openHeap := [] } := ⟨h.generation, h.nodes⟩
  obtain ⟨a₁, hprepare, hroom⟩ := prepare_room hnumbered a
  have hshows := hclear.prepare_shows hprepare hroom rfl rfl
  obtain ⟨hheap, -, hmax⟩ := prepare_same hprepare
  obtain ⟨a₀, hopens⟩ := opens_total std hne hfree hprepare ⟨hstart.indexed hnumbered, hstart.allocated hroom⟩
    ⟨hend.indexed hnumbered, hend.allocated hroom⟩
  have hfind := findPath_opens hopens
  obtain ⟨-, -, a₁', hprepare', -, -, ha₀⟩ := opens_eq hopens
  rw [hprepare] at hprepare'
  obtain rfl := Option.some.inj hprepare'
  have hnodes := (hshows.touched hstart).touched hend
  have hgenStart := (arrive_own map (arrive map a₁ start) end_ _).mpr (Or.inr ((arrive_own map a₁ start _).mpr (Or.inl rfl)))
  have hgenEnd := (arrive_own map (arrive map a₁ start) end_ _).mpr (Or.inl rfl)
  have hcount : Shows map ({ arrive map (arrive map a₁ start) end_ with count := 0 } : AStar K)
      (freshNode map a₁.searchGeneration) :=
    ⟨hnodes.room, hnodes.nodes_eq, hnodes.at_cell, hnodes.items, hnodes.lastPath⟩
  have hitems : a₀.openHeap = std.pushHeap HeapItem.comp [⟨0, index map start⟩] := by
    rw [ha₀, pushOpen]
    change std.pushHeap HeapItem.comp (a₁.openHeap ++
      [⟨((arrive map (arrive map a₁ start) end_).nodes _).f, _⟩]) = _
    rw [hheap, hnodes.current hgenStart]
    rfl
  have hmax₀ : a₀.maxCount = a.maxCount := by
    rw [ha₀]
    exact hmax
  rw [hmax₀] at hfind
  refine ⟨a₀, a₁.searchGeneration, ?_, ?_, hitems, ?_, hfind⟩ <;> rw [ha₀]
  · exact hcount.pushOpen hgenStart
  · exact hgenEnd
  · rfl

/-- **`findPath`** between two cells of the map, the second one not blocked.  It can fail to return only
where `count` overflows. -/
theorem findPath_spec (std : HeapAlgorithms) {map : AbstractMap U} (hnumbered : Numbered map) {a : AStar K}
    (h : Fresh a) {start end_ : Int × Int}
    (hstart : InMap map start) (hend : InMap map end_) (hne : start ≠ end_) (userdata : U)
    (hfree : map.isBlock end_.1 end_.2 userdata = false)
    {Inv : (Nat → Nat → Prop) → List Nat → (Nat → PathNode K) → List (HeapItem K) → Prop}
    (rule : Rule (query std map a start end_ userdata) Inv)
    (hinit : ∀ generation, Inv (fun _ _ => True) [] (freshNode map generation)
      (std.pushHeap HeapItem.comp [⟨0, index map start⟩])) :
    (∃ a', a.findPath std map start.1 start.2 end_.1 end_.2 userdata = some (a', !a'.lastPath.isEmpty) ∧
        Outcome (query std map a start end_ userdata) Inv [] a.maxCount.toNat a') ∨
      a.findPath std map start.1 start.2 end_.1 end_.2 userdata = none ∧
        ¬ Counts (query std map a start end_ userdata) a.maxCount.toNat := by
  obtain ⟨a₀, generation, hshows, hgen, hheap, hcount, hfind⟩ :=
    findPath_begin std hnumbered h hstart hend hne userdata hfree
  have hcases := search_spec (q := query std map a start end_ userdata) rule (index_lt hnumbered hstart)
    a.maxCount.toNat [] a₀ (freshNode map generation) hshows hgen (hheap ▸ Base.init _ _) (hheap ▸ hinit _)
    List.not_mem_nil hcount
  rw [List.length_nil, Nat.zero_add] at hcases
  simp only [query] at hcases
  rw [hfind]
  rcases hcases with ⟨a', hsearch, houtcome⟩ | ⟨hsearch, hover⟩ <;> rw [hsearch]
  · refine Or.inl ⟨_, rfl, ?_⟩
    cases houtcome with
    | found order' nodes' heap rest item hbase hinv hpops hend' hpath hsub hnot hcells' =>
      exact .found order' nodes' heap rest item hbase hinv hpops hend' hpath hsub hnot hcells'
    | missed order' nodes' heap hbase hinv hend' hpath hwhy =>
      exact .missed order' nodes' heap hbase hinv hend' hpath hwhy
  · exact Or.inr ⟨rfl, hover⟩

/-- `findPath` returns where its rounds can be counted. -/
theorem findPath_returns (std : HeapAlgorithms) {map : AbstractMap U} (hnumbered : Numbered map) {a : AStar K}
    (h : Fresh a) {start end_ : Int × Int}
    (hstart : InMap map start) (hend : InMap map end_) (hne : start ≠ end_) (userdata : U)
    (hfree : map.isBlock end_.1 end_.2 userdata = false)
    (hcounts : Counts (query std map a start end_ userdata) a.maxCount.toNat)
    {Inv : (Nat → Nat → Prop) → List Nat → (Nat → PathNode K) → List (HeapItem K) → Prop}
    (rule : Rule (query std map a start end_ userdata) Inv)
    (hinit : ∀ generation, Inv (fun _ _ => True) [] (freshNode map generation)
      (std.pushHeap HeapItem.comp [⟨0, index map start⟩])) :
    ∃ a', a.findPath std map start.1 start.2 end_.1 end_.2 userdata = some (a', !a'.lastPath.isEmpty) ∧
      Outcome (query std map a start end_ userdata) Inv [] a.maxCount.toNat a' :=
  (findPath_spec std hnumbered h hstart hend hne userdata hfree rule hinit).resolve_right fun hover => hover.2 hcounts

/-! ## The path -/

/-- The cells of `lastPath`. -/
def path (a : AStar K) : List (Int × Int) := a.lastPath.map fun node => ((a.nodes node).x, (a.nodes node).y)

/-- A path that leads from `start` to `end_` over free cells of the map, each one only once. -/
structure Walkable (map : AbstractMap U) (userdata : U) (start end_ : Int × Int)
    (path : List (Int × Int)) : Prop where
  nonempty : path ≠ []
  distinct : path.Nodup
  free : ∀ c ∈ path, InMap map c ∧ map.isBlock c.1 c.2 userdata = false
  neighbours : (start :: path).IsChain Neighbour
  last : path.getLast? = some end_
  start : start ∉ path

omit [Zero K] [Add K] [LT K] [DecidableLT K] [BEq K] [NatCast K] [OfScientific K] in
/-- The cells of the links of a search. -/
theorem path_of_links {q : Query U K} {order : List Nat} {nodes : Nat → PathNode K} {a' : AStar K}
    (htree : Tree q.Step q.start order (parents nodes))
    (hpath : IsPath (fun u w => parents nodes w = some u) q.start a'.lastPath q.end_)
    (hcells : ∀ v ∈ a'.lastPath, ((a'.nodes v).x, (a'.nodes v).y) = cell q.map v) :
    a'.path = a'.lastPath.map (cell q.map) ∧
      IsPath (AStar.Step q.map q.userdata) (cell q.map q.start) a'.path (cell q.map q.end_) := by
  have hmap : a'.path = a'.lastPath.map (cell q.map) := List.map_congr_left hcells
  refine ⟨hmap, ?_⟩
  rw [hmap]
  exact hpath.map (cell q.map) fun u v huv => (htree.closed v u huv).2.2

omit [Zero K] [Add K] [NatCast K] [OfScientific K] in
/-- The cells of the links of a search that pops its end. -/
theorem walkable_of_links {q : Query U K} {order : List Nat} {nodes : Nat → PathNode K} {a' : AStar K}
    {heap rest : List (HeapItem K)} {item : HeapItem K} (hne : q.start ≠ q.end_) (hbase : Base q order nodes heap)
    (hpops : Pops nodes heap item rest) (hend : item.node = q.end_)
    (hpath : IsPath (fun u w => parents nodes w = some u) q.start a'.lastPath q.end_)
    (hsub : a'.lastPath.reverse.Sublist (q.end_ :: order)) (hnot : q.start ∉ a'.lastPath)
    (hcells : ∀ v ∈ a'.lastPath, ((a'.nodes v).x, (a'.nodes v).y) = cell q.map v) :
    Walkable q.map q.userdata (cell q.map q.start) (cell q.map q.end_) a'.path := by
  obtain ⟨hmap, hwalk⟩ := path_of_links hbase.tree hpath hcells
  have hnodup : a'.lastPath.Nodup := by
    have htree := (hbase.pops hpops).2
    rw [hend] at htree
    exact List.nodup_reverse.mp (htree.nodup.sublist hsub)
  have hnonempty : a'.path ≠ [] := by
    intro hnil
    rw [hmap, List.map_eq_nil_iff] at hnil
    rw [hnil] at hpath
    exact hne hpath
  refine ⟨hnonempty, ?_, fun c hc => ?_, hwalk.isChain.imp fun b c hbc => hbc.1, ?_, ?_⟩
  · rw [hmap]
    exact hnodup.map_on fun u _ v _ => cell_inj
  · obtain ⟨b, hb⟩ := hwalk.step_to hc
    exact hb.2
  · rw [← hwalk.getLast?]
    cases hlist : a'.path with
    | nil => exact absurd hlist hnonempty
    | cons c cs => rw [List.getLast?_cons_cons]
  · rw [hmap, List.mem_map]
    rintro ⟨v, hv, heq⟩
    exact hnot (cell_inj heq ▸ hv)

theorem findPath_blocked (std : HeapAlgorithms) {map : AbstractMap U} (a : AStar K) {start end_ : Int × Int}
    (hne : start ≠ end_) {userdata : U} (hblock : map.isBlock end_.1 end_.2 userdata = true) :
    a.findPath std map start.1 start.2 end_.1 end_.2 userdata =
      some ({ a with lastPath := [], openHeap := [] }, false) := by
  have hcells : ¬ (start.1 = end_.1 ∧ start.2 = end_.2) := fun heq => hne (Prod.ext heq.1 heq.2)
  unfold findPath
  simp only
  rw [if_neg hcells, if_pos hblock]

/-- **Every path is walkable.**  After any calls, `findPath` between two different cells of the map
returns; when it returns true `lastPath` leads from the first to the second, and else it is empty. -/
theorem every_path_walkable (std : HeapAlgorithms) (max : Int) (history : List (Call U K)) (a : AStar K)
    (out : List (Option Bool)) (hrun : runOps (step std) (AStar.new max) history = some (a, out))
    (map : AbstractMap U) (hsized : Sized map) (userdata : U) (start end_ : Int × Int) (hstart : InMap map start)
    (hend : InMap map end_) (hne : start ≠ end_) :
    ∃ a' found, a.findPath std map start.1 start.2 end_.1 end_.2 userdata = some (a', found) ∧
      (found = true → Walkable map userdata start end_ a'.path) ∧ (found = false → a'.lastPath = []) := by
  cases hblock : map.isBlock end_.1 end_.2 userdata with
  | true =>
    refine ⟨_, false, findPath_blocked std a hne hblock, ?_, fun _ => rfl⟩
    intro hfalse
    cases hfalse
  | false =>
    have hnumbered := hsized.numbered
    have hrule : Rule (query std map a start end_ userdata) fun _ _ _ _ => True :=
      ⟨fun _ _ => trivial, fun _ _ _ => trivial, fun _ _ _ _ => trivial⟩
    obtain ⟨a', hfind, houtcome⟩ := findPath_returns std hnumbered (fresh_of_calls hrun) hstart hend hne userdata
      hblock (Sized.counts _ hsized (index_lt hnumbered hstart) _) hrule fun _ => trivial
    refine ⟨a', _, hfind, fun hfound => ?_, fun hmissed => ?_⟩
    · cases houtcome with
      | found order nodes heap rest item hbase _ hpops hitem hpath hsub hnot hcells =>
        have hindex : index map start ≠ index map end_ := fun heq =>
          hne (by rw [← cell_index hnumbered hstart, heq, cell_index hnumbered hend])
        have hwalk := walkable_of_links hindex hbase hpops hitem hpath hsub hnot hcells
        simp only [query, cell_index hnumbered hstart, cell_index hnumbered hend] at hwalk
        exact hwalk
      | missed _ _ _ _ _ _ hpath _ =>
        rw [hpath] at hfound
        cases hfound
    · rw [Bool.not_eq_false'] at hmissed
      exact List.isEmpty_iff.mp hmissed

/-- Three cells by two, with a block between the upper ends. -/
def gate : AbstractMap Unit where
  getWidth := 3
  getHeight := 2
  isBlock x y _ := x = 1 ∧ y = 0

/-- Two cells by two. -/
def square : AbstractMap Unit where
  getWidth := 2
  getHeight := 2
  isBlock _ _ _ := false

end Libws.Core.AStar
