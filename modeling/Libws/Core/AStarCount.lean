import Libws.Core.AStarComplete
import Libws.Core.AStarReuse

/-!
# A search that cannot count its rounds

On a free map of `2 ^ 31` cells, a search that comes to its end last has closed all other cells
before, and then its `count++` overflows.  Which cell is the last one depends on the heap.

* `Flat` — where all steps cost the same and nothing is estimated, `popOpen` loses no node, whatever
  the type of the costs;
* `Finds`, `finds_or_undefined` — such a search pops its end after some rounds, or is undefined;
* `Finds.unique` — two such searches run in step, and do not pop different ends after the same
  rounds;
* `exists_uncounted` — so there are too many ends for the rounds that can be counted.
-/

set_option autoImplicit false

namespace Libws.Core.AStar

open Libws.Heap Libws.Integer Libws.Search Relation

variable {U K : Type} [Zero K] [Add K]

/-! ## Costs that are all the same -/

/-- The values of the nodes where every step costs `k`, and nothing is estimated. -/
structure Flat (k : K) (nodes : Nat → PathNode K) : Prop where
  g : ∀ v, ∃ n, (nodes v).g = (· + k)^[n] 0
  h : ∀ v, (nodes v).h = 0
  f : ∀ v, (nodes v).f = 0 ∨ (nodes v).f = (nodes v).g + 0

theorem Flat.close {k : K} {nodes : Nat → PathNode K} (hflat : Flat k nodes) (v : Nat) : Flat k (close nodes v) := by
  refine ⟨fun u => ?_, fun u => ?_, fun u => ?_⟩ <;> obtain ⟨hf, hg, hh⟩ := close_same nodes v u
  · rw [hg]
    exact hflat.g u
  · rw [hh]
    exact hflat.h u
  · rw [hf, hg]
    exact hflat.f u

theorem Flat.reached {k : K} {nodes : Nat → PathNode K} (hflat : Flat k nodes) (v current : Nat) {h : K} (hh : h = 0) :
    Flat k (reached nodes v current h ((nodes current).g + k)) := by
  subst hh
  have hother : ∀ u, u ≠ v → AStar.reached nodes v current 0 ((nodes current).g + k) u = nodes u := fun u hu =>
    Function.update_of_ne hu ..
  refine ⟨fun u => ?_, fun u => ?_, fun u => ?_⟩ <;> by_cases hu : u = v
  · subst hu
    obtain ⟨n, hn⟩ := hflat.g current
    refine ⟨n + 1, ?_⟩
    simp only [AStar.reached, Function.update_self]
    rw [Function.iterate_succ_apply', ← hn]
  · rw [hother u hu]
    exact hflat.g u
  · subst hu
    simp only [AStar.reached, Function.update_self]
  · rw [hother u hu]
    exact hflat.h u
  · subst hu
    simp only [AStar.reached, Function.update_self]
    exact Or.inr trivial
  · rw [hother u hu]
    exact hflat.f u

variable [LT K] [DecidableLT K] [BEq K]

omit [LT K] [DecidableLT K] in
theorem Flat.self {k : K} (hzero : ((0 : K) == 0) = true)
    (hself : ∀ n : Nat, ((· + k)^[n] 0 + 0 == (· + k)^[n] 0 + 0) = true) {nodes : Nat → PathNode K}
    (hflat : Flat k nodes) (v : Nat) : ((nodes v).f == (nodes v).f) = true := by
  rcases hflat.f v with hf | hf <;> rw [hf]
  · exact hzero
  · obtain ⟨n, hn⟩ := hflat.g v
    rw [hn]
    exact hself n

theorem Flat.visit {k : K} {q : Query U K} (hheuristic : q.heuristic = fun _ _ _ _ => 0)
    (hgetCost : q.getCost = fun _ _ _ _ => k) {current : Nat} {nodes nodes' : Nat → PathNode K}
    {heap heap' : List (HeapItem K)} {c : Int × Int} (hflat : Flat k nodes)
    (hvisit : Visit q current nodes heap c nodes' heap') : Flat k nodes' := by
  cases hvisit with
  | outside | closed | keep => exact hflat
  | reach v h hcell hstep hopen hcase =>
    have hcost : q.cost current v = k := by rw [Query.cost, hgetCost]
    rw [hcost]
    refine hflat.reached v current ?_
    rcases hcase with ⟨-, -, rfl⟩ | ⟨-, rfl⟩
    · exact hflat.h v
    · rw [Query.estimate, hheuristic]

/-- No node that was found is lost. -/
theorem flat_rule {k : K} (hzero : ((0 : K) == 0) = true)
    (hself : ∀ n : Nat, ((· + k)^[n] 0 + 0 == (· + k)^[n] 0 + 0) = true) {q : Query U K}
    (hheuristic : q.heuristic = fun _ _ _ _ => 0) (hgetCost : q.getCost = fun _ _ _ _ => k) :
    Rule q fun E order nodes heap => Complete q E order nodes heap ∧ Flat k nodes where
  mono hE h := ⟨h.1.mono hE, h.2⟩
  settle hbase h hpops := ⟨h.1.settle (h.2.self hzero hself) hbase hpops, h.2.close _⟩
  visit hbase _ h hvisit := ⟨h.1.visit hzero hbase hvisit, h.2.visit hheuristic hgetCost hvisit⟩

/-! ## When a search pops its end -/

/-- The search from `a` pops its end after `n` other nodes. -/
inductive Finds (std : HeapAlgorithms) (map : AbstractMap U) (userdata : U)
    (heuristic getCost : Int → Int → Int → Int → K) (end_ : Nat) : Nat → AStar K → Prop where
  | now {a a₁ : AStar K} (hpop : ({ a with count := a.count + 1 } : AStar K).popOpen std = (a₁, some end_)) :
    Finds std map userdata heuristic getCost end_ 0 a
  | later {a a₁ a₂ : AStar K} {current n : Nat}
      (hpop : ({ a with count := a.count + 1 } : AStar K).popOpen std = (a₁, some current)) (hother : current ≠ end_)
      (hvisits : visitColumns std map userdata heuristic getCost current end_
        (a₁.setNode current { a₁.nodes current with isClosed := true }) = some a₂)
      (hrest : Finds std map userdata heuristic getCost end_ n a₂) :
    Finds std map userdata heuristic getCost end_ (n + 1) a

/-- With more rounds than can be counted, the search finds its end before, or is undefined. -/
theorem finds_or_undefined {k : K} (hzero : ((0 : K) == 0) = true)
    (hself : ∀ n : Nat, ((· + k)^[n] 0 + 0 == (· + k)^[n] 0 + 0) = true) {q : Query U K}
    (hheuristic : q.heuristic = fun _ _ _ _ => 0) (hgetCost : q.getCost = fun _ _ _ _ => k)
    (hstart : q.start < q.map.getWidth * q.map.getHeight) (hreach : ReflTransGen q.Step q.start q.end_)
    {rounds : Nat} (hover : ¬ int.Represents (rounds + 1)) : ∀ (left : Nat) (order : List Nat) (a : AStar K)
    (nodes : Nat → PathNode K), Shows q.map a nodes → (a.nodes q.end_).generation = a.searchGeneration →
    Base q order nodes a.openHeap → Complete q (fun _ _ => True) order nodes a.openHeap ∧ Flat k nodes →
    q.end_ ∉ order → a.count = order.length → order.length + left = rounds →
    search q.std q.map q.userdata q.heuristic q.getCost q.end_ left a = none ∨
      ∃ n < left, Finds q.std q.map q.userdata q.heuristic q.getCost q.end_ n a
  | 0, order, a, nodes, _, _, _, _, _, hcount, hrounds => by
    rw [Nat.add_zero] at hrounds
    rw [← hrounds, ← hcount] at hover
    exact Or.inl (if_neg hover)
  | left + 1, order, a, nodes, hshows, hgen, hbase, hinv, hend, hcount, hrounds => by
    have hpop := popOpen_spec q.std (a := { a with count := a.count + 1 })
      ⟨hshows.room, hshows.nodes_eq, hshows.at_cell, hshows.items, hshows.lastPath⟩
    have hcount₁ := popOpen_count q.std { a with count := a.count + 1 }
    generalize hpopped : ({ a with count := a.count + 1 } : AStar K).popOpen q.std = result at hpop hcount₁
    cases hpop with
    | none a₁ hshows₁ hdead => exact absurd (hinv.1.closed (hinv.2.self hzero hself) hbase hdead hreach) hend
    | some a₁ item hshows₁ hgrows₁ hpops =>
      by_cases hfound : item.node = q.end_
      · rw [hfound] at hpopped
        exact Or.inr ⟨0, Nat.succ_pos _, .now hpopped⟩
      · obtain ⟨a₃, nodes₃, hvisits, hshows₃, hgen₃, hbase₃, hinv₃, hcount₃⟩ :=
          round_spec (flat_rule hzero hself hheuristic hgetCost) hstart hshows hgen hbase hinv hshows₁ hgrows₁ hpops
        have hrest := finds_or_undefined hzero hself hheuristic hgetCost hstart hreach hover left (item.node :: order)
          a₃ nodes₃ hshows₃ hgen₃ hbase₃ hinv₃
          (fun hmem => (List.mem_cons.mp hmem).elim (fun heq => hfound heq.symm) hend)
          (by rw [hcount₃, hcount₁, hcount, List.length_cons]; rfl) (by rw [List.length_cons]; omega)
        rcases hrest with hnone | ⟨n, hn, hfinds⟩
        · left
          unfold search
          rw [hpopped]
          simp only
          rw [if_neg hfound, hvisits]
          exact hnone
        · exact Or.inr ⟨n + 1, Nat.succ_lt_succ hn, .later hpopped hfound hvisits hfinds⟩

/-- The first node that is popped is the start. -/
theorem Finds.pos {std : HeapAlgorithms} {map : AbstractMap U} {userdata : U}
    {heuristic getCost : Int → Int → Int → Int → K} {start end_ n : Nat} {a : AStar K} {nodes : Nat → PathNode K}
    (h : Finds std map userdata heuristic getCost end_ n a) (hshows : Shows map a nodes)
    (hheap : a.openHeap = std.pushHeap HeapItem.comp [⟨0, start⟩]) (hne : start ≠ end_) : 0 < n := by
  cases h with
  | later => exact Nat.succ_pos _
  | now hpop =>
    have hspec := popOpen_spec std (a := { a with count := a.count + 1 })
      ⟨hshows.room, hshows.nodes_eq, hshows.at_cell, hshows.items, hshows.lastPath⟩
    rw [hpop] at hspec
    cases hspec with
    | some _ item hshows hgrows hpops =>
      have hmem := hpops.mem.1
      simp only [hheap] at hmem
      rw [List.mem_singleton.mp ((std.pushHeap_perm _ _).mem_iff.mp hmem)] at hne
      exact absurd rfl hne

/-- **Two searches run in step** until one of them pops its end. -/
theorem Finds.unique {q : Query U K} {h : K} (hheuristic : q.heuristic = fun _ _ _ _ => h)
    (hstart : q.start < q.map.getWidth * q.map.getHeight) {end_ end' n : Nat} {a : AStar K}
    (hfinds : Finds q.std q.map q.userdata q.heuristic q.getCost end_ n a) :
    ∀ {order : List Nat} {b : AStar K} {nodes twin : Nat → PathNode K}, Twin q nodes twin a b →
    Base q order nodes a.openHeap → Finds q.std q.map q.userdata q.heuristic q.getCost end' n b → end_ = end' := by
  -- the loops around a node do not look at the end
  have hend : ∀ (current : Nat) (e e' : Nat) (a : AStar K),
      visitColumns q.std q.map q.userdata q.heuristic q.getCost current e a =
        visitColumns q.std q.map q.userdata q.heuristic q.getCost current e' a := by
    rw [hheuristic]
    intros
    rfl
  induction hfinds with
  | @now a a₁ hpop =>
    intro order b nodes twin htwin hbase hfinds'
    cases hfinds' with
    | now hpop' =>
      obtain ⟨a', b', found, hpopped, hpopped', -⟩ := popOpen_twin (htwin.recount (a.count + 1) (b.count + 1))
      rw [hpop] at hpopped
      rw [hpop'] at hpopped'
      exact Option.some.inj ((Prod.mk.inj hpopped).2.trans (Prod.mk.inj hpopped').2.symm)
  | @later a a₁ a₂ current n hpop hother hvisits hrest ih =>
    intro order b nodes twin htwin hbase hfinds'
    cases hfinds' with
    | later hpop' hother' hvisits' hrest' =>
      have hcount := htwin.recount (a.count + 1) (b.count + 1)
      obtain ⟨a', b', found, hpopped, hpopped', htwin', hgrows'⟩ := popOpen_twin hcount
      have hspec := popOpen_spec q.std hcount.left
      rw [hpop] at hpopped hspec
      rw [hpop'] at hpopped'
      obtain ⟨rfl, rfl⟩ := Prod.mk.inj hpopped
      obtain ⟨rfl, hsame⟩ := Prod.mk.inj hpopped'
      obtain rfl := Option.some.inj hsame
      cases hspec with
      | some a₁ item hshows hgrows hpops =>
        obtain ⟨a₃, b₃, nodes₃, twin₃, hround, hround', htwin₃, hbase₃, -⟩ :=
          round_twin hstart hcount hbase htwin' hgrows hgrows' hpops
        rw [hend] at hvisits hvisits'
        rw [hvisits] at hround
        rw [hvisits'] at hround'
        obtain rfl := Option.some.inj hround
        obtain rfl := Option.some.inj hround'
        exact ih htwin₃ hbase₃ hrest'

/-! ## Too many ends -/

omit [Zero K] [Add K] [LT K] [DecidableLT K] [BEq K] in
/-- On a free map every cell can be reached from the first one. -/
theorem open_reachable {map : AbstractMap U} {userdata : U} (hopen : ∀ x y, map.isBlock x y userdata = false)
    {c : Int × Int} (hc : InMap map c) : ReflTransGen (Step map userdata) (0, 0) c := by
  obtain ⟨x, y⟩ := c
  obtain ⟨hx, hx', hy, hy'⟩ := hc
  obtain ⟨n, rfl⟩ := Int.eq_ofNat_of_zero_le hx
  obtain ⟨m, rfl⟩ := Int.eq_ofNat_of_zero_le hy
  simp only at hx' hy'
  have hrow : ∀ n : Nat, n < map.getWidth → ReflTransGen (Step map userdata) (0, 0) (n, 0) := by
    intro n
    induction n with
    | zero => exact fun _ => .refl
    | succ n ih =>
      refine fun hn => (ih (by omega)).tail ⟨?_, ?_, hopen ..⟩
      · simp only [Neighbour, ne_eq, Prod.mk.injEq]
        omega
      · simp only [InMap]
        omega
  have hcolumn : ∀ m : Nat, m < map.getHeight → ReflTransGen (Step map userdata) (0, 0) (n, m) := by
    intro m
    induction m with
    | zero => exact fun _ => hrow n (by omega)
    | succ m ih =>
      refine fun hm => (ih (by omega)).tail ⟨?_, ?_, hopen ..⟩
      · simp only [Neighbour, ne_eq, Prod.mk.injEq]
        omega
      · simp only [InMap]
        omega
  exact hcolumn m (by omega)

variable [NatCast K] [OfScientific K]

/-- A search for a cell that can be reached pops it within the rounds that can be counted, if it is not
undefined. -/
theorem finds_of_defined (std : HeapAlgorithms) {k : K} (hzero : ((0 : K) == 0) = true)
    (hself : ∀ n : Nat, ((· + k)^[n] 0 + 0 == (· + k)^[n] 0 + 0) = true) {map : AbstractMap U}
    (hnumbered : Numbered map) {userdata : U} {a : AStar K} (h : Fresh a)
    (hover : ¬ int.Represents (a.maxCount.toNat + 1))
    (hheuristic : a.heuristic = some fun _ _ _ _ => 0) (hgetCost : a.getCost = some fun _ _ _ _ => k)
    {start end_ : Int × Int} (hstart : InMap map start) (hend : InMap map end_) (hne : start ≠ end_)
    (hfree : map.isBlock end_.1 end_.2 userdata = false) (hreach : ReflTransGen (Step map userdata) start end_)
    (hdefined : a.findPath std map start.1 start.2 end_.1 end_.2 userdata ≠ none) :
    ∃ n, 0 < n ∧ n < a.maxCount.toNat ∧ ∃ (a₀ : AStar K) (generation : Nat), Shows map a₀ (freshNode map generation) ∧
      a₀.openHeap = std.pushHeap HeapItem.comp [⟨0, index map start⟩] ∧
      Finds std map userdata (fun _ _ _ _ => 0) (fun _ _ _ _ => k) (index map end_) n a₀ := by
  obtain ⟨a₀, generation, hshows, hgen, hheap, hcount, hfind⟩ :=
    findPath_begin std hnumbered h hstart hend hne userdata hfree
  have hindex : index map start ≠ index map end_ := fun heq =>
    hne (by rw [← cell_index hnumbered hstart, heq, cell_index hnumbered hend])
  have hnode := reachable_node (query std map a start end_ userdata) hnumbered (index_lt hnumbered hstart)
    (by simp only [query, cell_index hnumbered hstart]; exact hreach)
  have hcases := finds_or_undefined hzero hself (q := query std map a start end_ userdata)
    (by rw [query, hheuristic]; rfl) (by rw [query, hgetCost]; rfl) (index_lt hnumbered hstart) hnode hover
    a.maxCount.toNat [] a₀ (freshNode map generation) hshows hgen (hheap ▸ Base.init _ _)
    ⟨hheap ▸ Complete.init _ _, fun v => ⟨0, rfl⟩, fun _ => rfl, fun _ => Or.inl rfl⟩ List.not_mem_nil hcount
    (Nat.zero_add _)
  simp only [query, hheuristic, hgetCost, Option.getD_some] at hcases
  rw [hheuristic, hgetCost] at hfind
  rcases hcases with hnone | ⟨n, hn, hfinds⟩
  · refine absurd ?_ hdefined
    rw [hfind]
    simp only [Option.getD_some]
    rw [hnone]
    rfl
  · exact ⟨n, hfinds.pos hshows hheap hindex, hn, a₀, generation, hshows, hheap, hfinds⟩

omit [NatCast K] [OfScientific K] in
/-- Two searches from one start do not pop different ends after the same rounds. -/
theorem finds_unique {std : HeapAlgorithms} {k : K} {map : AbstractMap U} (hnumbered : Numbered map) {userdata : U}
    {start : Int × Int} (hstart : InMap map start) {u v n generation generation' : Nat} {a b : AStar K}
    (hshows : Shows map a (freshNode map generation)) (hshows' : Shows map b (freshNode map generation'))
    (hheap : a.openHeap = std.pushHeap HeapItem.comp [⟨0, index map start⟩])
    (hheap' : b.openHeap = std.pushHeap HeapItem.comp [⟨0, index map start⟩])
    (hu : Finds std map userdata (fun _ _ _ _ => 0) (fun _ _ _ _ => k) u n a)
    (hv : Finds std map userdata (fun _ _ _ _ => 0) (fun _ _ _ _ => k) v n b) : u = v := by
  -- a search of which the start is the end
  let q : Query U K :=
    ⟨std, map, userdata, fun _ _ _ _ => 0, fun _ _ _ _ => k, index map start, index map start⟩
  have hmem : (⟨0, index map start⟩ : HeapItem K) ∈ std.pushHeap HeapItem.comp [⟨0, index map start⟩] :=
    (std.pushHeap_perm _ _).mem_iff.mpr (List.mem_singleton_self _)
  have htwin : Twin q (freshNode map generation) (freshNode map generation') a b :=
    ⟨hshows, hshows', fun _ => rfl, hheap.trans hheap'.symm, hshows.items _ (hheap ▸ hmem),
      hshows'.items _ (hheap' ▸ hmem)⟩
  have hbase : Base q [] (freshNode map generation) a.openHeap := by
    rw [hheap]
    exact Base.init q generation
  exact Finds.unique (q := q) rfl (index_lt hnumbered hstart) hu htwin hbase hv

/-- **On a free map of `2 ^ 31` cells a search can be undefined**: the one for the cell that it comes to
last.  There are more ends than numbers of rounds after which they could be popped. -/
theorem exists_uncounted (std : HeapAlgorithms) {k : K} (hzero : ((0 : K) == 0) = true)
    (hself : ∀ n : Nat, ((· + k)^[n] 0 + 0 == (· + k)^[n] 0 + 0) = true) {map : AbstractMap U}
    (hnumbered : Numbered map) (hcells : map.getWidth * map.getHeight = 2 ^ 31) {userdata : U}
    (hopen : ∀ x y, map.isBlock x y userdata = false) {a : AStar K} (h : Fresh a) (hmax : a.maxCount = 2 ^ 31 - 1)
    (hheuristic : a.heuristic = some fun _ _ _ _ => 0) (hgetCost : a.getCost = some fun _ _ _ _ => k) :
    ∃ start end_, InMap map start ∧ InMap map end_ ∧ start ≠ end_ ∧
      a.findPath std map start.1 start.2 end_.1 end_.2 userdata = none := by
  obtain ⟨start, hstart, hreach⟩ :
      ∃ start, InMap map start ∧ ∀ c, InMap map c → ReflTransGen (Step map userdata) start c := by
    have hin : InMap map (cell map 0) := inMap_cell (by omega)
    exact ⟨(0, 0), ⟨le_refl _, lt_of_le_of_lt hin.1 hin.2.1, le_refl _, lt_of_le_of_lt hin.2.2.1 hin.2.2.2⟩,
      fun _ => open_reachable hopen⟩
  have hover : ¬ int.Represents (a.maxCount.toNat + 1) := by
    rw [represents_int]
    omega
  by_contra hdefined
  have hfinds : ∀ v, ∃ n, v ∈ (Finset.range (map.getWidth * map.getHeight)).erase (index map start) →
      (0 < n ∧ n < a.maxCount.toNat ∧ ∃ (a₀ : AStar K) (generation : Nat), Shows map a₀ (freshNode map generation) ∧
        a₀.openHeap = std.pushHeap HeapItem.comp [⟨0, index map start⟩] ∧
        Finds std map userdata (fun _ _ _ _ => 0) (fun _ _ _ _ => k) v n a₀) := by
    intro v
    by_cases hv : v ∈ (Finset.range (map.getWidth * map.getHeight)).erase (index map start)
    swap
    · exact ⟨0, fun hmem => absurd hmem hv⟩
    obtain ⟨hne, hlt⟩ := Finset.mem_erase.mp hv
    rw [Finset.mem_range] at hlt
    have hcell : start ≠ cell map v := fun heq => hne (by rw [heq, index_cell hnumbered hlt])
    obtain ⟨n, hn⟩ := finds_of_defined std hzero hself hnumbered h hover hheuristic hgetCost hstart (inMap_cell hlt)
      hcell (hopen ..) (hreach _ (inMap_cell hlt)) fun hnone =>
        hdefined ⟨start, cell map v, hstart, inMap_cell hlt, hcell, hnone⟩
    rw [index_cell hnumbered hlt] at hn
    exact ⟨n, fun _ => hn⟩
  choose rounds hrounds using hfinds
  have hcard : ((Finset.range a.maxCount.toNat).erase 0).card <
      ((Finset.range (map.getWidth * map.getHeight)).erase (index map start)).card := by
    rw [Finset.card_erase_of_mem (Finset.mem_range.mpr (index_lt hnumbered hstart)),
      Finset.card_erase_of_mem (Finset.mem_range.mpr (by omega)), Finset.card_range, Finset.card_range]
    omega
  obtain ⟨u, hu, v, hv, hne, heq⟩ := Finset.exists_ne_map_eq_of_card_lt_of_maps_to hcard (f := rounds) fun v hv =>
    Finset.mem_coe.mpr (Finset.mem_erase.mpr ⟨(hrounds v hv).1.ne', Finset.mem_range.mpr (hrounds v hv).2.1⟩)
  obtain ⟨-, -, a₀, generation, hshows, hheap, hfinds⟩ := hrounds u hu
  obtain ⟨-, -, b₀, generation', hshows', hheap', hfinds'⟩ := hrounds v hv
  rw [heq] at hfinds
  exact hne (finds_unique hnumbered hstart hshows hshows' hheap hheap' hfinds hfinds')

end Libws.Core.AStar
