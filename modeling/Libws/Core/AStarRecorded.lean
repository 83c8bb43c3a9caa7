import Libws.Core.AStarRun

/-!
# The costs that the nodes record

* `Linked` — the costs of the nodes are those of the chains of their parents;
* `Improves` — no node that has a parent comes to a greater cost;
* `recorded_costs_iff` — both hold in a run if and only if no visit gives a cost above 0 to a node that
  has a parent and the cost 0, which the code takes for new, and none moves a node away from its cost.
-/

set_option autoImplicit false

namespace Libws.Core.AStar

open Libws.Heap Libws.Machine Libws.Search Relation

variable {U K : Type} [AddMonoid K] [LinearOrder K]

/-- The parent that a node was given in this search. -/
def link (a : AStar K) (v : Nat) : Option Nat :=
  if (a.nodes v).generation = a.searchGeneration then (a.nodes v).parent else none

/-- The cost of a step between two nodes, where they are. -/
def stepPrice (q : Query U K) (a : AStar K) (u v : Nat) : K :=
  q.getCost (place a u).1 (place a u).2 (place a v).1 (place a v).2

/-- Every node that has a parent records the cost of its chain of parents from the start. -/
def Exact (q : Query U K) (a : AStar K) : Prop :=
  link a q.start = none ∧ ∀ v u, link a v = some u →
    ∃ p, IsPath (fun u w => link a w = some u) q.start p v ∧ (a.nodes v).g = pathCost (stepPrice q a) q.start p

/-- The nodes that have a parent keep one, and their costs do not grow. -/
def Improves (a a' : AStar K) : Prop :=
  ∀ v u, link a v = some u → (∃ u', link a' v = some u') ∧ (a'.nodes v).g ≤ (a.nodes v).g

/-- The visit that comes next enters the cell `c` from the node `current`, and is defined. -/
structure Entering (q : Query U K) (m : AStar K × Control) (current : Nat) (c : Int × Int) : Prop where
  control : ∃ left, m.2 = .column left current c.1 c.2
  within : c.2 ≤ (place m.1 current).2 + 1
  enters : Enters q.map q.userdata (place m.1 current) c
  defined : ∃ m', Ticks q m m'

/-- The visit that comes next gives a cost above 0 to an open node that has a parent and the cost 0. -/
def Overwrites (q : Query U K) (m : AStar K × Control) : Prop :=
  ∃ current c, Entering q m current c ∧ (∃ u, link m.1 (index q.map c) = some u) ∧
    (m.1.nodes (index q.map c)).isClosed = false ∧ (m.1.nodes (index q.map c)).g = 0 ∧ 0 < costOver q m.1 current c

/-- The node of the cell is closed, or it was seen and costs no more than over `current`. -/
def KeepsParent (q : Query U K) (a : AStar K) (current : Nat) (c : Int × Int) : Prop :=
  (a.nodes (index q.map c)).isClosed = true ∨
    (a.nodes (index q.map c)).g ≠ 0 ∧ (a.nodes (index q.map c)).g ≤ costOver q a current c

/-- The visit that comes next moves a node, and with it a node that keeps its parent no longer costs
what its parent and the step from it cost. -/
def Moves (q : Query U K) (m : AStar K × Control) : Prop :=
  ∃ current c, Entering q m current c ∧ ∃ v u, link m.1 v = some u ∧
    (v = index q.map c → KeepsParent q m.1 current c) ∧
    (m.1.nodes v).g ≠ (m.1.nodes u).g + stepPrice q (arrive q.map m.1 c) u v

variable {q : Query U K} {current : Nat} {a a' : AStar K} {c : Int × Int} {order : List Nat}

/-! ## What `getNode` and `reach` leave as it is -/

omit [LinearOrder K] in
theorem arrive_same (map : AbstractMap U) (a : AStar K) (c : Int × Int) {v : Nat}
    (hv : (a.nodes v).generation = a.searchGeneration) :
    ((arrive map a c).nodes v).g = (a.nodes v).g ∧ ((arrive map a c).nodes v).isClosed = (a.nodes v).isClosed := by
  obtain ⟨x, y, hnode⟩ := arrive_keeps map a c hv
  rw [hnode]
  exact ⟨rfl, rfl⟩

omit [LinearOrder K] in
theorem link_arrive (map : AbstractMap U) (a : AStar K) (c : Int × Int) : link (arrive map a c) = link a := by
  funext v
  unfold link
  by_cases hc : v = index map c
  · subst hc
    rw [if_pos ((arrive_own map a c _).mpr (Or.inl rfl)), arrive_node, touch]
    by_cases hown : (a.nodes (index map c)).generation = a.searchGeneration
    · rw [if_neg (not_not.mpr hown), if_pos hown]
    · rw [if_pos hown, if_neg hown]
  · rw [arrive_other map a c hc]
    rfl

theorem link_reach (std : HeapAlgorithms) (a : AStar K) {v : Nat} (hv : (a.nodes v).generation = a.searchGeneration)
    (h g : K) : link (a.reach std v current h g) = Function.update (link a) v (some current) := by
  funext w
  by_cases hw : w = v
  · subst hw
    rw [Function.update_self, link, reach_node]
    exact if_pos hv
  · rw [Function.update_of_ne hw, link, reach_other std a v current h g hw]
    rfl

/-- What the visit that comes next does. -/
theorem Entering.turn {m : AStar K × Control} (h : Entering q m current c) :
    ∃ m', Ticks q m m' ∧ Turn q current m.1 c m'.1 := by
  obtain ⟨a, control⟩ := m
  obtain ⟨⟨left, hcontrol⟩, hwithin, -, m', htick⟩ := h
  simp only at hcontrol hwithin
  subst hcontrol
  have hstep := htick
  rw [Ticks, tick] at hstep
  split_ifs at hstep with hfits hle
  · obtain ⟨a', hvisit, rfl⟩ := Option.map_eq_some_iff.mp hstep
    exact ⟨_, htick, turn_of_visit hvisit⟩
  · exact absurd hwithin hle

/-! ## Costs do not grow -/

/-- The loops go around a closed node. -/
def Steady (m : AStar K × Control) : Prop :=
  ∀ current, m.2.current = some current →
    (m.1.nodes current).generation = m.1.searchGeneration ∧ (m.1.nodes current).isClosed = true

/-- A step of the loops keeps to a closed node. -/
theorem Steady.tick {m m' : AStar K × Control} (h : Steady m) (htick : Ticks q m m') : Steady m' := by
  have hnone : ∀ {a : AStar K} {control : Control}, control.current = none → Steady (a, control) :=
    fun hcontrol current hcurrent => by
      rw [hcontrol] at hcurrent
      cases hcurrent
  cases tick_cases htick with
  | spent | empty | found | leave => exact hnone rfl
  | close a left heap item hheap hitem hown hopen =>
    intro v hv
    obtain rfl := Option.some.inj hv
    simp only [setNode, Function.update_self, and_true]
    exact hown
  | enter | next => exact h
  | visit a a' left current x y hle hvisit =>
    intro v hv
    obtain ⟨hown, hclosed⟩ := h v hv
    obtain ⟨hown', hsame⟩ := turn_same (turn_of_visit hvisit) hown
    exact ⟨hown', hsame.trans hclosed⟩

omit [AddMonoid K] [LinearOrder K] in
theorem link_own {v u : Nat} (h : link a v = some u) : (a.nodes v).generation = a.searchGeneration := by
  unfold link at h
  split at h
  · assumption
  · cases h

omit [LinearOrder K] in
/-- The node that a closed node reaches is another one, and the cost over the closed node is known before. -/
theorem costOver_arrive (hcurrent : (a.nodes current).generation = a.searchGeneration ∧
    (a.nodes current).isClosed = true) (hopen : (touch q.map a c).isClosed = false) :
    current ≠ index q.map c ∧ costOver q (arrive q.map a c) current c = costOver q a current c := by
  have hne : current ≠ index q.map c := fun heq => by
    have hsame := (arrive_same q.map a c hcurrent.1).2
    rw [heq, arrive_node, hopen, ← heq, hcurrent.2] at hsame
    cases hsame
  refine ⟨hne, ?_⟩
  rw [costOver, place, arrive_other q.map a c hne]
  rfl

/-- **One visit**: costs do not grow, unless it overwrites a cost of 0. -/
theorem turn_improves (hcurrent : (a.nodes current).generation = a.searchGeneration ∧
    (a.nodes current).isClosed = true)
    (hspares : ∀ u, link a (index q.map c) = some u → (a.nodes (index q.map c)).isClosed = false →
      (a.nodes (index q.map c)).g = 0 → costOver q a current c ≤ 0)
        (hturn : Turn q current a c a') : Improves a a' := by
  intro v u hlink
  have hown := link_own hlink
  obtain ⟨hg, hclosed⟩ := arrive_same q.map a c hown
  have hlink' : link (arrive q.map a c) v = some u := by rw [link_arrive, hlink]
  cases hturn with
  | skip => exact ⟨⟨u, hlink⟩, le_refl _⟩
  | closed | keep => exact ⟨⟨u, hlink'⟩, hg.le⟩
  | reach n henters hopen hcase =>
    obtain ⟨hne, hcost⟩ := costOver_arrive hcurrent hopen
    have hnode := (arrive_own q.map a c (index q.map c)).mpr (Or.inl rfl)
    rw [link_reach q.std _ hnode]
    by_cases hv : v = index q.map c
    · subst hv
      rw [Function.update_self, reach_node]
      rw [arrive_node] at hg hclosed
      refine ⟨⟨current, rfl⟩, ?_⟩
      simp only
      rw [hcost] at hcase ⊢
      rcases hcase with ⟨-, hlt, -⟩ | ⟨hzero, -⟩
      · exact hlt.le.trans hg.le
      · have hg₀ : (a.nodes (index q.map c)).g = 0 := hg.symm.trans (beq_iff_eq.mp hzero)
        rw [hg₀]
        exact hspares u hlink (hclosed.symm.trans hopen) hg₀
    · rw [Function.update_of_ne hv, reach_other _ _ _ _ _ _ hv]
      exact ⟨⟨u, hlink'⟩, hg.le⟩

/-- **One step**: costs do not grow, unless its visit overwrites a cost of 0. -/
theorem tick_improves {m m' : AStar K × Control} (h : Steady m) (hspares : ¬ Overwrites q m)
    (htick : Ticks q m m') : Improves m.1 m'.1 := by
  cases tick_cases htick with
  | spent | empty | found | enter | leave | next => exact fun v u hlink => ⟨⟨u, hlink⟩, le_refl _⟩
  | close a left heap item hheap hitem hown hopen =>
    intro v u hlink
    by_cases hv : v = item.node
    · subst hv
      simp only [link, setNode, Function.update_self] at hlink ⊢
      exact ⟨⟨u, hlink⟩, le_refl _⟩
    · simp only [link, setNode, Function.update_of_ne hv] at hlink ⊢
      exact ⟨⟨u, hlink⟩, le_refl _⟩
  | visit a a' left current x y hle hvisit =>
    have hturn := turn_of_visit hvisit
    by_cases henters : Enters q.map q.userdata (place a current) (x, y)
    · exact turn_improves (h current rfl) (fun u hlink hopen hzero => not_lt.mp fun hpos =>
        hspares ⟨current, (x, y), ⟨⟨left, rfl⟩, hle, henters, _, htick⟩, ⟨u, hlink⟩, hopen, hzero, hpos⟩) hturn
    · cases hturn with
      | skip => exact fun v u hlink => ⟨⟨u, hlink⟩, le_refl _⟩
      | closed h | keep h | reach _ h => exact absurd h henters

omit [AddMonoid K] in
theorem Improves.trans {a₁ a₂ a₃ : AStar K} (h : Improves a₁ a₂) (h' : Improves a₂ a₃) : Improves a₁ a₃ := by
  intro v u hlink
  obtain ⟨⟨u₂, hlink₂⟩, hle⟩ := h v u hlink
  obtain ⟨hlink₃, hle'⟩ := h' v u₂ hlink₂
  exact ⟨hlink₃, hle'.trans hle⟩

/-- A visit that overwrites a cost of 0 makes a cost grow. -/
theorem overwrites_worsens {m : AStar K × Control} (h : Steady m) (hover : Overwrites q m) :
    ∃ m', Ticks q m m' ∧ ¬ Improves m.1 m'.1 := by
  obtain ⟨current, c, hentering, ⟨u, hlink⟩, hopen, hzero, hpos⟩ := hover
  obtain ⟨m', htick, hturn⟩ := hentering.turn
  obtain ⟨left, hcontrol⟩ := hentering.control
  obtain ⟨hg, hclosed⟩ := arrive_same q.map m.1 c (link_own hlink)
  rw [arrive_node] at hg hclosed
  refine ⟨m', htick, fun himproves => ?_⟩
  have hle := (himproves _ u hlink).2
  rw [hzero] at hle
  generalize m'.1 = a' at hturn hle
  cases hturn with
  | skip hskip => exact hskip hentering.enters
  | closed _ hshut =>
    rw [hclosed, hopen] at hshut
    cases hshut
  | keep _ _ hseen =>
    rw [hg, hzero, beq_self_eq_true] at hseen
    cases hseen
  | reach n _ hopen' hcase =>
    obtain ⟨-, hcost⟩ := costOver_arrive (h current (by rw [hcontrol]; rfl)) hopen'
    simp only [reach_node, hcost] at hle
    exact absurd hpos (not_lt.mpr hle)

/-! ## Costs are those of the chains of parents -/

/-- The search has closed the nodes `order`, and its links are a tree. -/
structure Linked (q : Query U K) (order : List Nat) (a : AStar K) : Prop where
  tree : Tree (fun _ _ => True) q.start order (link a)
  closed : ∀ v, (a.nodes v).generation = a.searchGeneration ∧ (a.nodes v).isClosed = true ↔ v ∈ order
  items : ∀ item ∈ a.openHeap, Found q.start (link a) item.node
  start : (a.nodes q.start).generation = a.searchGeneration ∧ (a.nodes q.start).g = 0

/-- Every cost is that of the parent and the step from it. -/
def Sums (q : Query U K) (a : AStar K) : Prop :=
  ∀ v u, link a v = some u → (a.nodes v).g = (a.nodes u).g + stepPrice q a u v

omit [LinearOrder K] in
theorem Linked.arrive (h : Linked q order a) (c : Int × Int) : Linked q order (arrive q.map a c) := by
  refine ⟨?_, fun v => ?_, fun item hitem => ?_, ?_⟩
  · rw [link_arrive]
    exact h.tree
  · rw [← h.closed v]
    by_cases hown : (a.nodes v).generation = a.searchGeneration
    · rw [(arrive_same q.map a c hown).2, arrive_own]
      exact ⟨fun hv => ⟨hown, hv.2⟩, fun hv => ⟨Or.inr hown, hv.2⟩⟩
    · rw [arrive_own, or_iff_left hown]
      refine ⟨?_, fun hv => absurd hv.1 hown⟩
      rintro ⟨rfl, hclosed⟩
      rw [arrive_node, touch, if_pos hown] at hclosed
      cases hclosed
  · rw [link_arrive]
    exact h.items item hitem
  · exact ⟨(arrive_own q.map a c _).mpr (Or.inr h.start.1), (arrive_same q.map a c h.start.1).1.trans h.start.2⟩

omit [LinearOrder K] in
/-- An open node is not one that was closed. -/
theorem Linked.open_not_mem (h : Linked q order a) {v : Nat} (hopen : (a.nodes v).isClosed = false) : v ∉ order :=
  fun hmem => by
    rw [((h.closed v).mpr hmem).2] at hopen
    cases hopen

/-- An open node gets a closed parent. -/
theorem Linked.reach (h : Linked q order a) (hcurrent : current ∈ order) {w : Nat}
    (hown : (a.nodes w).generation = a.searchGeneration) (hopen : (a.nodes w).isClosed = false) (n g : K) :
    Linked q order (a.reach q.std w current n g) := by
  have hnot := h.open_not_mem hopen
  have hsame := fun v => reach_same q.std a w current n g v
  have hlink : link (a.reach q.std w current n g) = Function.update (link a) w (some current) :=
    link_reach q.std a hown n g
  refine ⟨?_, fun v => ?_, fun item hitem => ?_, ?_⟩
  · rw [hlink]
    exact h.tree.relax hcurrent hnot trivial
  · rw [(hsame v).2.1, (hsame v).2.2]
    exact h.closed v
  · rw [hlink]
    rcases (mem_reach_heap ..).mp hitem with hitem | rfl
    · by_cases hc : item.node = w
      · exact Or.inr ⟨current, by rw [hc, Function.update_self]⟩
      · rw [Found, Function.update_of_ne hc]
        exact h.items item hitem
    · exact Or.inr ⟨current, Function.update_self ..⟩
  · have hstart := h.tree.first (List.ne_nil_of_mem hcurrent)
    rw [reach_other q.std a w current n g fun heq => hnot (heq ▸ hstart)]
    exact h.start

theorem Linked.turn (h : Linked q order a) (hcurrent : current ∈ order) (hturn : Turn q current a c a') :
    Linked q order a' := by
  cases hturn with
  | skip => exact h
  | closed | keep => exact h.arrive c
  | reach n henters hopen =>
    refine (h.arrive c).reach hcurrent ((arrive_own ..).mpr (Or.inl rfl)) ?_ n _
    rw [arrive_node]
    exact hopen

/-- A visit leaves a node and its parent what they cost, if the node keeps the parent. -/
theorem Linked.turn_keeps (h : Linked q order a) (henters : Enters q.map q.userdata (place a current) c)
    (hcurrent : current ∈ order) {v u : Nat} (hlink : link a v = some u)
    (hkeeps : v = index q.map c → KeepsParent q a current c) (hturn : Turn q current a c a') :
    link a' v = some u ∧ (a'.nodes v).g = (a.nodes v).g ∧ (a'.nodes u).g = (a.nodes u).g ∧
      stepPrice q a' u v = stepPrice q (AStar.arrive q.map a c) u v := by
  have hv := link_own hlink
  have hu := (h.closed u).mpr (h.tree.closed v u hlink).1
  have hlink' : link (AStar.arrive q.map a c) v = some u := by rw [link_arrive, hlink]
  have hgv := (arrive_same q.map a c hv).1
  have hgu := (arrive_same q.map a c hu.1).1
  cases hturn with
  | skip hskip => exact absurd henters hskip
  | closed | keep => exact ⟨hlink', hgv, hgu, rfl⟩
  | reach n _ hopen hcase =>
    have hnew := (arrive_own q.map a c (index q.map c)).mpr (Or.inl rfl)
    have hother : v ≠ index q.map c := fun heq => by
      subst heq
      obtain ⟨hg, hclosed⟩ := arrive_same q.map a c hv
      rw [arrive_node] at hg hclosed
      rw [hclosed] at hopen
      rw [hg, (costOver_arrive ((h.closed current).mpr hcurrent) (hclosed.trans hopen)).2] at hcase
      rcases hkeeps rfl with hshut | ⟨hseen, hle⟩
      · rw [hopen] at hshut
        cases hshut
      · rcases hcase with ⟨-, hlt, -⟩ | ⟨hzero, -⟩
        · exact absurd hlt (not_lt.mpr hle)
        · exact hseen (beq_iff_eq.mp hzero)
    have hparent : u ≠ index q.map c := fun heq => by
      have hsame := (arrive_same q.map a c hu.1).2
      rw [heq, arrive_node, hopen, ← heq, hu.2] at hsame
      cases hsame
    have hsame := reach_same q.std (AStar.arrive q.map a c) (index q.map c) current n
      (costOver q (AStar.arrive q.map a c) current c)
    refine ⟨?_, ?_, ?_, ?_⟩
    · rw [link_reach q.std _ hnew, Function.update_of_ne hother, hlink']
    · rw [reach_other _ _ _ _ _ _ hother, hgv]
    · rw [reach_other _ _ _ _ _ _ hparent, hgu]
    · rw [stepPrice, (hsame u).1, (hsame v).1]
      rfl

/-- The links after a visit: those that it leaves, and the one that it may make. -/
theorem Linked.turn_links (h : Linked q order a) (henters : Enters q.map q.userdata (place a current) c)
    (hcurrent : current ∈ order) (hturn : Turn q current a c a') {v u : Nat} (hlink : link a' v = some u) :
    link a v = some u ∧ (v = index q.map c → KeepsParent q a current c) ∨
      (a'.nodes v).g = (a'.nodes u).g + stepPrice q a' u v := by
  cases hturn with
  | skip hskip => exact absurd henters hskip
  | closed _ hclosed =>
    rw [link_arrive] at hlink
    refine Or.inl ⟨hlink, fun heq => Or.inl ?_⟩
    subst heq
    have hsame := (arrive_same q.map a c (link_own hlink)).2
    rw [arrive_node, hclosed] at hsame
    exact hsame.symm
  | keep _ hopen hseen hge =>
    rw [link_arrive] at hlink
    refine Or.inl ⟨hlink, fun heq => Or.inr ?_⟩
    subst heq
    have hsame := (arrive_same q.map a c (link_own hlink)).1
    rw [arrive_node] at hsame
    rw [(costOver_arrive ((h.closed current).mpr hcurrent) hopen).2, hsame] at hge
    rw [hsame] at hseen
    exact ⟨fun hzero => by simp [hzero] at hseen, not_lt.mp hge⟩
  | reach n _ hopen =>
    have hnew := (arrive_own q.map a c (index q.map c)).mpr (Or.inl rfl)
    rw [link_reach q.std _ hnew] at hlink
    by_cases hv : v = index q.map c
    · subst hv
      rw [Function.update_self] at hlink
      obtain rfl := Option.some.inj hlink
      have hne := (costOver_arrive ((h.closed current).mpr hcurrent) hopen).1
      have hsame := reach_same q.std (AStar.arrive q.map a c) (index q.map c) current n
        (costOver q (AStar.arrive q.map a c) current c)
      refine Or.inr ?_
      rw [stepPrice, (hsame _).1, (hsame _).1, arrive_place, reach_node, reach_other _ _ _ _ _ _ hne]
      rfl
    · rw [Function.update_of_ne hv, link_arrive] at hlink
      exact Or.inl ⟨hlink, fun heq => absurd heq hv⟩

/-- A visit keeps the sums, if it moves no node out of them. -/
theorem Sums.turn (hsums : Sums q a) (h : Linked q order a) (hcurrent : current ∈ order)
    (hstays : Enters q.map q.userdata (place a current) c → ∀ v u, link a v = some u →
      (v = index q.map c → KeepsParent q a current c) →
      (a.nodes v).g = (a.nodes u).g + stepPrice q (arrive q.map a c) u v)
    (hturn : Turn q current a c a') : Sums q a' := by
  by_cases henters : Enters q.map q.userdata (place a current) c
  · intro v u hlink
    rcases h.turn_links henters hcurrent hturn hlink with ⟨hold, hkeeps⟩ | hnew
    · obtain ⟨-, hgv, hgu, hprice⟩ := h.turn_keeps henters hcurrent hold hkeeps hturn
      rw [hgv, hgu, hprice]
      exact hstays henters v u hold hkeeps
    · exact hnew
  · cases hturn with
    | skip => exact hsums
    | closed h | keep h | reach _ h => exact absurd h henters

omit [LinearOrder K] in
/-- Costs are exact where they are those of the parents and the steps. -/
theorem Linked.exact (h : Linked q order a) (hsums : Sums q a) : Exact q a := by
  refine ⟨h.tree.root, fun v u hlink => ?_⟩
  obtain ⟨l, r, heq⟩ := List.append_of_mem (h.tree.closed v u hlink).1
  obtain ⟨p, -, hpath, -, -⟩ := h.tree.climb_spec (r.length + 1) l u r [] heq (Nat.lt_succ_self _)
  have hpath' := hpath.concat hlink
  refine ⟨_, hpath', ?_⟩
  have hcost := pathCost_links hsums hpath'
  rw [h.start.2, zero_add] at hcost
  exact hcost.symm

omit [LinearOrder K] in
/-- An open node that was found is closed. -/
theorem Linked.close (h : Linked q order a) {item : HeapItem K} (hitem : item ∈ a.openHeap)
    (hown : (a.nodes item.node).generation = a.searchGeneration) (hopen : (a.nodes item.node).isClosed = false) :
    Linked q (item.node :: order) (a.setNode item.node { a.nodes item.node with isClosed := true }) := by
  have hnot := h.open_not_mem hopen
  have hnode := setNode_closed a item.node
  have hlink : link (a.setNode item.node { a.nodes item.node with isClosed := true }) = link a := by
    funext v
    rw [link, hnode]
    rfl
  refine ⟨?_, fun v => ?_, fun other hother => ?_, ?_⟩
  · rw [hlink]
    exact h.tree.settle hnot (h.items item hitem)
  · rw [List.mem_cons, ← h.closed, hnode, Bool.or_eq_true, decide_eq_true_eq]
    refine ⟨fun hv => hv.2.imp_right fun hclosed => ⟨hv.1, hclosed⟩, ?_⟩
    rintro (rfl | ⟨hv, hclosed⟩)
    · exact ⟨hown, Or.inl rfl⟩
    · exact ⟨hv, Or.inr hclosed⟩
  · rw [hlink]
    exact h.items other hother
  · rw [hnode]
    exact h.start

omit [LinearOrder K] in
theorem Sums.close (h : Sums q a) (w : Nat) : Sums q (a.setNode w { a.nodes w with isClosed := true }) := by
  have hnode := setNode_closed a w
  intro v u hlink
  have hlink' : link a v = some u := by
    rw [link, hnode] at hlink
    exact hlink
  rw [hnode v, hnode u, h v u hlink', stepPrice, stepPrice, place, place, place, place, hnode, hnode]

/-- The state of a run, as long as no visit moves a node out of the sums. -/
def LinkedRun (q : Query U K) (m : AStar K × Control) : Prop :=
  Sums q m.1 ∧ ∃ order, Linked q order m.1 ∧ ∀ current, m.2.current = some current → current ∈ order

theorem LinkedRun.tick {m m' : AStar K × Control} (h : LinkedRun q m) (hstays : ¬ Moves q m)
    (htick : Ticks q m m') : LinkedRun q m' := by
  obtain ⟨hsums, order, h, hcurrent⟩ := h
  cases tick_cases htick with
  | spent a => exact ⟨hsums, order, ⟨h.tree, h.closed, h.items, h.start⟩, fun v hv => by cases hv⟩
  | empty a left heap hheap | found a left heap _ hheap =>
    exact ⟨hsums, order, ⟨h.tree, h.closed, fun item hitem => h.items item (hheap item hitem), h.start⟩,
      fun v hv => by cases hv⟩
  | leave => exact ⟨hsums, order, h, fun v hv => by cases hv⟩
  | close a left heap item hheap hitem hown hopen =>
    have hclosed := h.close hitem hown hopen
    refine ⟨hsums.close item.node, item.node :: order, ⟨hclosed.tree, hclosed.closed,
      fun other hother => hclosed.items other (hheap other hother), hclosed.start⟩, fun v hv => ?_⟩
    obtain rfl := Option.some.inj hv
    exact List.mem_cons_self ..
  | enter => exact ⟨hsums, order, h, hcurrent⟩
  | visit a a' left current x y hle hvisit =>
    have hturn := turn_of_visit hvisit
    have hmem := hcurrent current rfl
    refine ⟨hsums.turn h hmem (fun henters v u hlink hkeeps => ?_) hturn, order, h.turn hmem hturn, hcurrent⟩
    by_contra hmoved
    exact hstays ⟨current, (x, y), ⟨⟨left, rfl⟩, hle, henters, _, htick⟩, v, u, hlink, hkeeps, hmoved⟩
  | next => exact ⟨hsums, order, h, hcurrent⟩

/-- After a visit that moves a node out of the sums, a cost is not exact. -/
theorem moves_inexact {m : AStar K × Control} (h : LinkedRun q m) (hmoves : Moves q m) :
    ∃ m', Ticks q m m' ∧ ¬ Exact q m'.1 := by
  obtain ⟨-, order, h, hcurrent⟩ := h
  obtain ⟨current, c, hentering, v, u, hlink, hkeeps, hmoved⟩ := hmoves
  obtain ⟨m', htick, hturn⟩ := hentering.turn
  obtain ⟨left, hcontrol⟩ := hentering.control
  have hmem : current ∈ order := hcurrent current (by rw [hcontrol]; rfl)
  obtain ⟨hlink', hgv, hgu, hprice⟩ := h.turn_keeps hentering.enters hmem hlink hkeeps hturn
  refine ⟨m', htick, fun hexact => hmoved ?_⟩
  rw [← hgv, ← hgu, ← hprice]
  exact links_tight hexact.1 (h.turn hmem hturn).start.2 hexact.2 hlink'

omit [LinearOrder K] in
/-- A run begins with no links. -/
theorem Opened.linked {start end_ : Int × Int} (h : Opened q.map start end_ a)
    (hstart : q.start = index q.map start) : Linked q [] a ∧ Sums q a := by
  have hnone : ∀ v, link a v = none := fun v => by
    unfold link
    split
    · rename_i hown
      exact (h.new v hown).1
    · rfl
  have hown := (h.own q.start).mpr (Or.inl hstart)
  refine ⟨⟨.nil hnone, fun v => ?_, fun item hitem => ?_, hown, (h.new _ hown).2.1⟩, fun v u hv => ?_⟩
  · refine ⟨fun ⟨hv, hclosed⟩ => ?_, fun hmem => absurd hmem List.not_mem_nil⟩
    rw [(h.new v hv).2.2] at hclosed
    cases hclosed
  · exact Or.inl ((h.items item hitem).trans hstart.symm)
  · rw [hnone] at hv
    cases hv

/-! ## Whole runs -/

variable {m₀ : AStar K × Control}

theorem steady_run (h : Steady m₀) {m : AStar K × Control} (hrun : ReflTransGen (Ticks q) m₀ m) : Steady m := by
  induction hrun with
  | refl => exact h
  | tail _ htick ih => exact ih.tick htick

/-- **Costs are exact in a run** if and only if no visit moves a node out of the sums. -/
theorem exact_run (h : LinkedRun q m₀) : (∀ m, ReflTransGen (Ticks q) m₀ m → ¬ Moves q m) ↔
    ∀ m, ReflTransGen (Ticks q) m₀ m → Exact q m.1 := by
  have hlinked : (∀ m, ReflTransGen (Ticks q) m₀ m → LinkedRun q m → ¬ Moves q m) →
      ∀ m, ReflTransGen (Ticks q) m₀ m → LinkedRun q m := by
    intro hstays m hm
    induction hm with
    | refl => exact h
    | tail hreach htick ih => exact ih.tick (hstays _ hreach ih) htick
  constructor
  · intro hstays m hm
    obtain ⟨hsums, order, hm, -⟩ := hlinked (fun m hm _ => hstays m hm) m hm
    exact hm.exact hsums
  · intro hexact
    have hstays : ∀ m, ReflTransGen (Ticks q) m₀ m → LinkedRun q m → ¬ Moves q m := fun m hm hm' hmoves => by
      obtain ⟨m', htick, hworse⟩ := moves_inexact hm' hmoves
      exact hworse (hexact m' (hm.tail htick))
    exact fun m hm => hstays m hm (hlinked hstays m hm)

/-- **Costs do not grow in a run** if and only if no visit overwrites a cost of 0. -/
theorem improves_run (h : Steady m₀) : (∀ m, ReflTransGen (Ticks q) m₀ m → ¬ Overwrites q m) ↔
    ∀ m m', ReflTransGen (Ticks q) m₀ m → ReflTransGen (Ticks q) m m' → Improves m.1 m'.1 := by
  constructor
  · intro hspares m m' hm hm'
    induction hm' with
    | refl => exact fun v u hlink => ⟨⟨u, hlink⟩, le_refl _⟩
    | tail hreach htick ih =>
      exact ih.trans (tick_improves (steady_run h (hm.trans hreach)) (hspares _ (hm.trans hreach)) htick)
  · intro himproves m hm hover
    obtain ⟨m', htick, hworse⟩ := overwrites_worsens (steady_run h hm) hover
    exact hworse (himproves m m' hm (.single htick))

variable [NatCast K] [OfScientific K]

/-- **The recorded costs.**  In a run of `findPath`, after any calls, the costs are exact in every state
and do not grow from there on, if and only if no visit overwrites a cost of 0 or moves a node out of the
sums. -/
theorem recorded_costs_iff (std : HeapAlgorithms) (max : Int) (history : List (Call U K)) (a : AStar K)
    (out : List (Option Bool)) (hrun : runOps (step std) (AStar.new max) history = some (a, out))
    (map : AbstractMap U) (userdata : U) (start end_ : Int × Int) (a₀ : AStar K)
    (hopens : opens std map a start end_ userdata = some a₀) :
    (∀ m, ReflTransGen (Ticks (query std map a start end_ userdata)) (a₀, .round a₀.maxCount.toNat) m →
      Exact (query std map a start end_ userdata) m.1 ∧
        ∀ m', ReflTransGen (Ticks (query std map a start end_ userdata)) m m' → Improves m.1 m'.1) ↔
    ∀ m, ReflTransGen (Ticks (query std map a start end_ userdata)) (a₀, .round a₀.maxCount.toNat) m →
      ¬ Overwrites (query std map a start end_ userdata) m ∧ ¬ Moves (query std map a start end_ userdata) m := by
  have hopened := (opens_spec (fresh_of_calls hrun) hopens).1
  generalize hq : query std map a start end_ userdata = q
  obtain ⟨hlinked, hsums⟩ : Linked q [] a₀ ∧ Sums q a₀ :=
    hq ▸ Opened.linked (q := query std map a start end_ userdata) hopened rfl
  have hsteady : Steady (a₀, .round a₀.maxCount.toNat) := fun v hv => by cases hv
  have hexact : (∀ m, ReflTransGen (Ticks q) (a₀, .round a₀.maxCount.toNat) m → ¬ Moves q m) ↔ _ :=
    exact_run ⟨hsums, [], hlinked, fun v hv => by cases hv⟩
  constructor
  · intro h m hm
    exact ⟨(improves_run hsteady).mpr (fun m m' hm => (h m hm).2 m') m hm, hexact.mpr (fun m hm => (h m hm).1) m hm⟩
  · intro h m hm
    exact ⟨hexact.mp (fun m hm => (h m hm).2) m hm,
      fun m' => (improves_run hsteady).mp (fun m hm => (h m hm).1) m m' hm⟩

/-- In the map of three cells by two. -/
theorem recorded_costs_iff_gate : ∃ a₀ : AStar ℚ,
    opens HeapAlgorithms.sorted gate (AStar.new 9) (0, 0) (2, 0) () = some a₀ ∧
    ((∀ m, ReflTransGen (Ticks (query HeapAlgorithms.sorted gate (AStar.new 9) (0, 0) (2, 0) ()))
        (a₀, .round a₀.maxCount.toNat) m →
      Exact (query HeapAlgorithms.sorted gate (AStar.new 9) (0, 0) (2, 0) ()) m.1 ∧
        ∀ m', ReflTransGen (Ticks (query HeapAlgorithms.sorted gate (AStar.new 9) (0, 0) (2, 0) ())) m m' →
          Improves m.1 m'.1) ↔
      ∀ m, ReflTransGen (Ticks (query HeapAlgorithms.sorted gate (AStar.new 9) (0, 0) (2, 0) ()))
        (a₀, .round a₀.maxCount.toNat) m →
      ¬ Overwrites (query HeapAlgorithms.sorted gate (AStar.new 9) (0, 0) (2, 0) ()) m ∧
        ¬ Moves (query HeapAlgorithms.sorted gate (AStar.new 9) (0, 0) (2, 0) ()) m) := by
  have hopens : (opens HeapAlgorithms.sorted gate (AStar.new 9 : AStar ℚ) (0, 0) (2, 0) ()).isSome = true := by
    decide +kernel
  obtain ⟨a₀, hopens⟩ := Option.isSome_iff_exists.mp hopens
  exact ⟨a₀, hopens, recorded_costs_iff HeapAlgorithms.sorted 9 [] _ [] rfl gate () (0, 0) (2, 0) a₀ hopens⟩

/-- Great at the lower left. -/
def lowerLeft (x y _ _ : Int) : ℚ := if (x, y) = (0, 1) then 5 else if (x, y) = (1, 1) then 1 else 0

/-- All steps cost 1, but down on the left. -/
def freeStep (x1 y1 x2 y2 : Int) : ℚ := if (x1, y1) = (0, 0) ∧ (x2, y2) = (0, 1) then 0 else 1

/-- The node at the lower left gets the start as its parent for nothing, and then the node at the
upper right for the cost 2. -/
theorem freeStep_overwritten : ∃ (a a₀ : AStar ℚ) (m m' : AStar ℚ × Control),
    (∀ x1 y1 x2 y2, 0 ≤ freeStep x1 y1 x2 y2 ∧ 0 ≤ lowerLeft x1 y1 x2 y2) ∧
    runOps (step HeapAlgorithms.sorted) (AStar.new 512)
      [Call.setHeuristic (U := Unit) (some lowerLeft), .setGetCost (some freeStep)] = some (a, [none, none]) ∧
    opens HeapAlgorithms.sorted square a (0, 0) (1, 1) () = some a₀ ∧
    ReflTransGen (Ticks (query HeapAlgorithms.sorted square a (0, 0) (1, 1) ())) (a₀, .round a₀.maxCount.toNat) m ∧
    ReflTransGen (Ticks (query HeapAlgorithms.sorted square a (0, 0) (1, 1) ())) m m' ∧
    link m.1 2 = some 0 ∧ (m.1.nodes 2).g = 0 ∧ (m'.1.nodes 2).g = 2 := by
  have hcosts : ∀ x1 y1 x2 y2, 0 ≤ freeStep x1 y1 x2 y2 ∧ 0 ≤ lowerLeft x1 y1 x2 y2 := fun x1 y1 x2 y2 => by
    unfold freeStep lowerLeft
    constructor <;> (repeat' split) <;> decide
  have hrun : ((opens HeapAlgorithms.sorted square
      { AStar.new 512 with heuristic := some lowerLeft, getCost := some freeStep } (0, 0) (1, 1) ()).bind fun a₀ =>
      (ticks (query HeapAlgorithms.sorted square
        { AStar.new 512 with heuristic := some lowerLeft, getCost := some freeStep } (0, 0) (1, 1) ()) 10
        (a₀, .round a₀.maxCount.toNat)).bind fun m =>
      (ticks (query HeapAlgorithms.sorted square
        { AStar.new 512 with heuristic := some lowerLeft, getCost := some freeStep } (0, 0) (1, 1) ()) 12 m).map
        fun m' => (link m.1 2, (m.1.nodes 2).g, (m'.1.nodes 2).g)) = some (some 0, 0, 2) := by decide +kernel
  obtain ⟨a₀, hopens, hrun⟩ := Option.bind_eq_some_iff.mp hrun
  obtain ⟨m, hm, hrun⟩ := Option.bind_eq_some_iff.mp hrun
  obtain ⟨m', hm', hresult⟩ := Option.map_eq_some_iff.mp hrun
  obtain ⟨hlink, hg, hg'⟩ : link m.1 2 = some 0 ∧ (m.1.nodes 2).g = 0 ∧ (m'.1.nodes 2).g = 2 := by
    simpa only [Prod.mk.injEq] using hresult
  exact ⟨_, a₀, m, m', hcosts, rfl, hopens, ticks_reach 10 hm, ticks_reach 12 hm', hlink, hg, hg'⟩

end Libws.Core.AStar
