import Mathlib.Tactic.Linarith
import Libws.Core.AStarOptimal

/-!
# `findPath` with its default functions

The Manhattan distance overestimates a diagonal step, 2 for 1.414.  It is consistent with the costs
times `excess`, and so the path that `findPath` finds costs at most `excess` times the least.
-/

set_option autoImplicit false

namespace Libws.Core.AStar

open Libws.Heap Libws.Machine Libws.Search

section Bound

variable {U K : Type} [AddCommMonoid K] [LinearOrder K] [IsOrderedCancelAddMonoid K] [NatCast K] [OfScientific K]

/-- The path that `findPath` finds costs no more than any other path with its steps at `bound`. -/
theorem found_near (std : HeapAlgorithms) {map : AbstractMap U} (hnumbered : Numbered map) {a a' : AStar K}
    (h : Fresh a) {start end_ : Int × Int} (hstart : InMap map start) (hend : InMap map end_) (hne : start ≠ end_) (userdata : U)
    (bound : Int × Int → Int × Int → K)
    (hwithin : Within (query std map a start end_ userdata) fun u v => bound (cell map u) (cell map v))
    (hfind : a.findPath std map start.1 start.2 end_.1 end_.2 userdata = some (a', true)) {p : List (Int × Int)}
    (hp : IsPath (Step map userdata) start p end_) :
    pathCost (stepCost (a.getCost.getD commonCost)) start a'.path ≤ pathCost bound start p := by
  have hfree : map.isBlock end_.1 end_.2 userdata = false := by
    rw [← Bool.not_eq_true]
    intro hblock
    rw [findPath_blocked std a hne hblock] at hfind
    cases hfind
  obtain ⟨a₁, hfind₁, houtcome⟩ := (findPath_spec std hnumbered h hstart hend hne userdata hfree (near_rule hwithin)
    (Near.init (query std map a start end_ userdata) _)).resolve_right fun hover => by
      rw [hover.1] at hfind
      cases hfind
  rw [hfind] at hfind₁
  obtain ⟨rfl, hfound⟩ := Prod.mk.inj (Option.some.inj hfind₁)
  cases houtcome with
  | missed _ _ _ _ _ _ hpath _ =>
    rw [hpath] at hfound
    cases hfound
  | found order nodes heap rest item hbase hinv hpops hitem hpath hsub hnot hcells =>
    have hcost := links_cost hbase.tree hinv.priced.start hinv.priced.tight hpath hcells
    simp only [query, cell_index hnumbered hstart] at hcost
    obtain ⟨hnodes, hbound⟩ := path_nodes (query std map a start end_ userdata) hnumbered bound hstart hp
    have hle := hinv.popped hwithin hbase hpops
    rw [hitem] at hle
    have hle := hle _ hnodes
    rw [hcost, ← hbound]
    exact hle

end Bound

variable {U : Type}

/-- How much the Manhattan distance overestimates a diagonal step. -/
def excess : ℚ := 1000 / 707

theorem commonCost_pos (x1 y1 x2 y2 : Int) : 0 < (commonCost x1 y1 x2 y2 : ℚ) := by
  unfold commonCost
  split <;> norm_num

/-- No step costs more than `excess` times itself. -/
theorem commonCost_le (x1 y1 x2 y2 : Int) : (commonCost x1 y1 x2 y2 : ℚ) ≤ excess * commonCost x1 y1 x2 y2 := by
  have hpos := commonCost_pos x1 y1 x2 y2
  unfold excess
  linarith

/-- A step changes the Manhattan distance by at most `excess` times what it costs. -/
theorem manhattanDistance_step {b c : Int × Int} (h : Neighbour b c) (end_ : Int × Int) :
    (manhattanDistance b.1 b.2 end_.1 end_.2 : ℚ) ≤
      excess * commonCost b.1 b.2 c.1 c.2 + manhattanDistance c.1 c.2 end_.1 end_.2 := by
  obtain ⟨hne, hx, hy⟩ := h
  unfold commonCost excess manhattanDistance
  split
  · have hle : (b.1 - end_.1).natAbs + (b.2 - end_.2).natAbs ≤
        2 + ((c.1 - end_.1).natAbs + (c.2 - end_.2).natAbs) := by omega
    have hcast : ((b.1 - end_.1).natAbs + (b.2 - end_.2).natAbs : ℚ) ≤
        2 + ((c.1 - end_.1).natAbs + (c.2 - end_.2).natAbs) := by exact_mod_cast hle
    calc ((b.1 - end_.1).natAbs + (b.2 - end_.2).natAbs : ℚ)
        ≤ 2 + ((c.1 - end_.1).natAbs + (c.2 - end_.2).natAbs) := hcast
      _ = 1000 / 707 * 1.414 + ((c.1 - end_.1).natAbs + (c.2 - end_.2).natAbs) := by norm_num
  · rename_i hstraight
    have hle : (b.1 - end_.1).natAbs + (b.2 - end_.2).natAbs ≤
        1 + ((c.1 - end_.1).natAbs + (c.2 - end_.2).natAbs) := by omega
    have hcast : ((b.1 - end_.1).natAbs + (b.2 - end_.2).natAbs : ℚ) ≤
        1 + ((c.1 - end_.1).natAbs + (c.2 - end_.2).natAbs) := by exact_mod_cast hle
    calc ((b.1 - end_.1).natAbs + (b.2 - end_.2).natAbs : ℚ)
        ≤ 1 + ((c.1 - end_.1).natAbs + (c.2 - end_.2).natAbs) := hcast
      _ ≤ 1000 / 707 * 1.0 + ((c.1 - end_.1).natAbs + (c.2 - end_.2).natAbs) := by
        have hone : (1 : ℚ) ≤ 1000 / 707 * 1.0 := by norm_num
        linarith

/-- **The default functions find a path of at most `1000 / 707` times the least cost.**  After any
calls that leave `heuristic` and `getCost` at their defaults, for every map whose cells have nodes of
their own, and for every `maxCount`. -/
theorem default_finds_within (std : HeapAlgorithms) (max : Int) (history : List (Call U ℚ)) (a : AStar ℚ)
    (out : List (Option Bool)) (hrun : runOps (step std) (AStar.new max) history = some (a, out))
    (hheuristic : a.heuristic.getD manhattanDistance = manhattanDistance)
    (hgetCost : a.getCost.getD commonCost = commonCost) (map : AbstractMap U) (hnumbered : Numbered map) (userdata : U)
    (start end_ : Int × Int) (hstart : InMap map start) (hne : start ≠ end_) (a' : AStar ℚ)
    (hfind : a.findPath std map start.1 start.2 end_.1 end_.2 userdata = some (a', true)) (p : List (Int × Int))
    (hp : IsPath (Step map userdata) start p end_) :
    pathCost (stepCost commonCost) start a'.path ≤ (1000 / 707 : ℚ) * pathCost (stepCost commonCost) start p := by
  have hend : InMap map end_ := by
    rcases (hp.reachable).cases_tail with heq | ⟨c, -, hstep⟩
    · exact absurd heq.symm hne
    · exact hstep.2.1
  have hwithin : Within (query std map a start end_ userdata)
      fun u v => excess * stepCost commonCost (cell map u) (cell map v) := by
    refine ⟨index_lt hnumbered hstart, fun u v _ _ => ?_, fun u v _ _ => ?_, fun u v w _ hvw => ?_⟩
    · simp only [Query.cost, query, hgetCost]
      exact commonCost_pos ..
    · simp only [Query.cost, query, hgetCost]
      exact commonCost_le ..
    · simp only [Query.estimate, query, hheuristic]
      exact manhattanDistance_step hvw.2.1 _
  have hle := found_near std hnumbered (fresh_of_calls hrun) hstart hend hne userdata
    (fun b c => excess * stepCost commonCost b c) hwithin hfind hp
  rw [hgetCost, pathCost_mul] at hle
  exact hle

/-- Five cells by four, with three blocks. -/
def detour : AbstractMap Unit where
  getWidth := 5
  getHeight := 4
  isBlock x y _ := (x, y) = (1, 1) ∨ (x, y) = (1, 2) ∨ (x, y) = (2, 3)

/-- The search keeps below the blocks, where the estimates are smaller. -/
theorem detour_findPath : ∃ a',
    (AStar.new 512 : AStar ℚ).findPath HeapAlgorithms.sorted detour 0 1 4 3 () = some (a', true) ∧
      a'.path = [(0, 2), (1, 3), (2, 2), (3, 3), (4, 3)] := by
  have hfind : ((AStar.new 512 : AStar ℚ).findPath HeapAlgorithms.sorted detour 0 1 4 3 ()).map
      (fun r => (r.2, r.1.path)) = some (true, [(0, 2), (1, 3), (2, 2), (3, 3), (4, 3)]) := by decide +kernel
  obtain ⟨⟨a', found⟩, hfind, hresult⟩ := Option.map_eq_some_iff.mp hfind
  obtain ⟨rfl, hpath⟩ := Prod.mk.inj hresult
  exact ⟨a', hfind, hpath⟩

theorem detour_path : IsPath (Step detour ()) (0, 1) [(1, 0), (2, 1), (3, 2), (4, 3)] (4, 3) := by
  simp only [IsPath]
  decide

theorem default_finds_within_detour : ∃ a',
    (AStar.new 512 : AStar ℚ).findPath HeapAlgorithms.sorted detour 0 1 4 3 () = some (a', true) ∧
      pathCost (stepCost commonCost) (0, 1) a'.path ≤
        (1000 / 707 : ℚ) * pathCost (stepCost commonCost) (0, 1) [(1, 0), (2, 1), (3, 2), (4, 3)] := by
  obtain ⟨a', hfind, -⟩ := detour_findPath
  exact ⟨a', hfind, default_finds_within HeapAlgorithms.sorted 512 [] _ [] rfl rfl rfl detour (by decide) () (0, 1)
    (4, 3) (by decide) (by decide) a' hfind _ detour_path⟩

/-- A path over four diagonals is cheaper than the one that the search finds. -/
theorem detour_not_cheapest : ∃ a' p,
    (AStar.new 512 : AStar ℚ).findPath HeapAlgorithms.sorted detour 0 1 4 3 () = some (a', true) ∧
      IsPath (Step detour ()) (0, 1) p (4, 3) ∧
      (pathCost (stepCost commonCost) (0, 1) p : ℚ) < pathCost (stepCost commonCost) (0, 1) a'.path := by
  obtain ⟨a', hfind, hpath⟩ := detour_findPath
  refine ⟨a', _, hfind, detour_path, ?_⟩
  rw [hpath]
  decide +kernel

end Libws.Core.AStar
