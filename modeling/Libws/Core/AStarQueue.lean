import Mathlib.Data.List.Perm.Subperm
import Libws.Core.AStarOptimal
import Libws.Core.AStarRun

/-!
# The heap of a run as a queue

A node may have several items in the heap, and its `f` changes after they were pushed.  Of these items the one with
the `f` of the node counts.

* `Run` — the states of a run, with the nodes that it has pushed and those that `popOpen` has returned;
* `Queue` — every node that is queued has an item with its `f`; kept by `getNode`, by `reach`, by `popOpen` and by
  closing, and so by the run (`run_queue`);
* `heap_is_queue` — `popOpen` returns a queued node with the least `f`.
-/

set_option autoImplicit false

namespace Libws.Core.AStar

open Libws.Heap Libws.Machine Relation

variable {U K : Type} [Zero K] [Add K] [LinearOrder K]

/-! ## What a run has pushed and popped -/

/-- The nodes that a step pushes: those of the items that it adds to the heap. -/
def pushedBy (m m' : AStar K × Control) : List Nat := (m'.1.openHeap.diff m.1.openHeap).map (·.node)

/-- The node that a step gets from `popOpen`. -/
def returnedBy (q : Query U K) : AStar K × Control → List Nat
  | (a, .round (_ + 1)) => (({ a with count := a.count + 1 } : AStar K).popOpen q.std).2.toList
  | _ => []

/-- The states of a run from `m₀`, with the nodes that were pushed since `findPath` began, and those that `popOpen`
returned. -/
inductive Run (q : Query U K) (m₀ : AStar K × Control) : AStar K × Control → List Nat → List Nat → Prop where
  | start : Run q m₀ m₀ [q.start] []
  | tick {m m' : AStar K × Control} {pushed returned : List Nat} (h : Run q m₀ m pushed returned)
      (htick : Ticks q m m') : Run q m₀ m' (pushed ++ pushedBy m m') (returned ++ returnedBy q m)

/-- In the queue: pushed, of the current generation, and not closed. -/
def Queued (a : AStar K) (pushed : List Nat) (v : Nat) : Prop :=
  v ∈ pushed ∧ (a.nodes v).generation = a.searchGeneration ∧ (a.nodes v).isClosed = false

/-- The item of a node with its `f`. -/
def entry (a : AStar K) (v : Nat) : HeapItem K := ⟨(a.nodes v).f, v⟩

/-- `popOpen` on the queue. -/
structure PopsLeast (std : HeapAlgorithms) (a : AStar K) (pushed : List Nat) : Prop where
  least : ∀ v, (a.popOpen std).2 = some v → Queued a pushed v ∧ ∀ w, Queued a pushed w →
    (a.nodes v).f ≤ (a.nodes w).f
  null : (a.popOpen std).2 = none ↔ ∀ v, ¬ Queued a pushed v
  skips : ∃ skipped,
    a.openHeap.Perm (skipped ++ (a.popOpen std).2.toList.map (entry a) ++ (a.popOpen std).1.openHeap) ∧
      ∀ item ∈ skipped, ¬ (Queued a pushed item.node ∧ item = entry a item.node)

variable {q : Query U K} {m₀ m m' : AStar K × Control} {pushed returned : List Nat}

theorem run_iff : (∃ pushed returned, Run q m₀ m pushed returned) ↔ ReflTransGen (Ticks q) m₀ m := by
  constructor
  · rintro ⟨pushed, returned, hrun⟩
    induction hrun with
    | start => exact .refl
    | tick _ htick ih => exact ih.tail htick
  · intro hreach
    induction hreach with
    | refl => exact ⟨_, _, .start⟩
    | tail _ htick ih =>
      obtain ⟨pushed, returned, hrun⟩ := ih
      exact ⟨_, _, hrun.tick htick⟩

/-! ## What is added to a heap -/

theorem diff_of_subperm {α : Type} [DecidableEq α] {l l' : List α} (h : l.Subperm l') : l.diff l' = [] := by
  refine List.eq_nil_iff_forall_not_mem.mpr fun x hx => ?_
  have hcount := List.count_pos_iff.mpr hx
  have hle := h.count_le x
  rw [List.count_diff] at hcount
  omega

theorem diff_of_perm_concat {α : Type} [DecidableEq α] {l l' : List α} {x : α} (h : l'.Perm (l ++ [x])) :
    l'.diff l = [x] := by
  refine List.perm_singleton.mp (List.perm_iff_count.mpr fun y => ?_)
  rw [List.count_diff, h.count_eq, List.count_append, Nat.add_sub_cancel_left]

/-! ## The invariant -/

/-- The heap serves as a queue of the nodes that were pushed. -/
structure Queue (q : Query U K) (a : AStar K) (pushed returned : List Nat) : Prop where
  own : ∀ v ∈ pushed, (a.nodes v).generation = a.searchGeneration
  items : ∀ item ∈ a.openHeap, item.node ∈ pushed
  entries : ∀ v, Queued a pushed v → (v = q.end_ → q.end_ ∉ returned) → entry a v ∈ a.openHeap
  ordered : IsHeap HeapItem.comp a.openHeap

variable {a : AStar K}

omit [Zero K] [Add K] in
theorem upToDate_entry_iff {item : HeapItem K} : upToDate a item = true ↔
    (a.nodes item.node).generation = a.searchGeneration ∧ (a.nodes item.node).isClosed = false ∧
      item = entry a item.node := by
  obtain ⟨f, v⟩ := item
  simp [upToDate_iff, entry]

omit [Zero K] [Add K] in
theorem Queued.upToDate {v : Nat} (h : Queued a pushed v) : upToDate a (entry a v) = true :=
  upToDate_entry_iff.mpr ⟨h.2.1, h.2.2, rfl⟩

omit [Add K] in
/-- `getNode` does not touch the queue. -/
theorem Queue.arrive (h : Queue q a pushed returned) (c : Int × Int) :
    Queue q (arrive q.map a c) pushed returned := by
  refine ⟨fun v hv => (arrive_own q.map a c v).mpr (.inr (h.own v hv)), h.items, fun v hv hend => ?_, h.ordered⟩
  obtain ⟨x, y, hnode⟩ := arrive_keeps q.map a c (h.own v hv.1)
  obtain ⟨hpushed, -, hopen⟩ := hv
  rw [hnode] at hopen
  rw [entry, hnode]
  exact h.entries v ⟨hpushed, h.own v hpushed, hopen⟩ hend

omit [Zero K] in
/-- A node that is reached changes its `f`, and gets an item for it. -/
theorem Queue.reach (h : Queue q a pushed returned) {w : Nat} (hw : (a.nodes w).generation = a.searchGeneration)
    (current : Nat) (n g : K) : Queue q (a.reach q.std w current n g) (pushed ++ [w]) returned := by
  have hsame := reach_same q.std a w current n g
  refine ⟨fun v hv => ?_, fun item hitem => ?_, fun v hv hend => ?_, ?_⟩
  · rw [(hsame v).2.1]
    rcases List.mem_append.mp hv with hv | hv
    · exact h.own v hv
    · exact List.mem_singleton.mp hv ▸ hw
  · rcases (mem_reach_heap ..).mp hitem with hitem | rfl
    · exact List.mem_append_left _ (h.items item hitem)
    · exact List.mem_append_right _ (List.mem_singleton_self w)
  · rw [mem_reach_heap]
    by_cases hvw : v = w
    · subst hvw
      exact .inr (by rw [entry, reach_node])
    · obtain ⟨hpushed, -, hopen⟩ := hv
      rw [List.mem_append, List.mem_singleton, or_iff_left hvw] at hpushed
      rw [(hsame v).2.2] at hopen
      rw [entry, reach_other q.std a w current n g hvw]
      exact .inl (h.entries v ⟨hpushed, h.own v hpushed, hopen⟩ hend)
  · refine q.std.pushHeap_isHeap HeapItem.comp _ ?_
    rw [List.dropLast_concat]
    exact h.ordered

/-- One visit of the loops around a node. -/
theorem Queue.turn (h : Queue q a pushed returned) {a' : AStar K} {current : Nat} {c : Int × Int}
    (hturn : Turn q current a c a') :
    Queue q a' (pushed ++ (a'.openHeap.diff a.openHeap).map (·.node)) returned := by
  have hsame : (a.openHeap.diff a.openHeap).map (·.node) = [] := by
    rw [diff_of_subperm (List.Subperm.refl a.openHeap), List.map_nil]
  cases hturn with
  | skip =>
    rw [hsame, List.append_nil]
    exact h
  | closed | keep =>
    have hheap : (AStar.arrive q.map a c).openHeap = a.openHeap := rfl
    rw [hheap, hsame, List.append_nil]
    exact h.arrive c
  | reach n =>
    have hown := (arrive_own q.map a c (index q.map c)).mpr (.inl rfl)
    have hadded := diff_of_perm_concat
      (q.std.pushHeap_perm HeapItem.comp (a.openHeap ++ [⟨costOver q (AStar.arrive q.map a c) current c + n, index q.map c⟩]))
    have hheap : ((AStar.arrive q.map a c).reach q.std (index q.map c) current n
        (costOver q (AStar.arrive q.map a c) current c)).openHeap = q.std.pushHeap HeapItem.comp
          (a.openHeap ++ [⟨costOver q (AStar.arrive q.map a c) current c + n, index q.map c⟩]) := by
      simp only [AStar.reach, pushOpen, setNode, Function.update_self]
      rfl
    rw [hheap, hadded]
    exact (h.arrive c).reach hown current n _

/-! ## `popOpen` -/

variable {item : HeapItem K} {rest : List (HeapItem K)}

omit [Zero K] [Add K] in
/-- What `popOpen` takes is queued, and the others that are queued keep their items. -/
theorem Queue.takes (h : Queue q a pushed returned)
    (htakes : Takes HeapItem.comp (upToDate a) a.openHeap item rest) :
    Queued a pushed item.node ∧ item = entry a item.node ∧
      ∀ v, Queued a pushed v → (v = q.end_ → q.end_ ∉ returned) → v ≠ item.node → entry a v ∈ rest := by
  obtain ⟨hown, hopen, hentry⟩ := upToDate_entry_iff.mp htakes.kept
  refine ⟨⟨h.items item htakes.mem.1, hown, hopen⟩, hentry, fun v hv hend hne => ?_⟩
  refine (htakes.keeps (h.entries v hv hend) hv.upToDate).resolve_left fun heq => hne ?_
  rw [← heq, entry]

omit [Zero K] [Add K] in
/-- **`popOpen` on the queue.** -/
theorem Queue.popsLeast (h : Queue q a pushed returned) (hend : q.end_ ∉ returned) (std : HeapAlgorithms) :
    PopsLeast std a pushed := by
  rcases popOpen_cases std a with ⟨hpop, hdead⟩ | ⟨item, rest, hpop, htakes⟩
  · have hnone : ∀ v, ¬ Queued a pushed v := fun v hv => by
      have hkeep := hv.upToDate
      rw [hdead _ (h.entries v hv fun _ => hend)] at hkeep
      cases hkeep
    refine ⟨fun v hv => ?_, ?_, a.openHeap, ?_, fun item _ hlive => hnone _ hlive.1⟩
    · rw [hpop] at hv
      cases hv
    · rw [hpop]
      exact iff_of_true rfl hnone
    · rw [hpop]
      simp
  · obtain ⟨hqueued, hentry, hrest⟩ := h.takes htakes
    obtain ⟨skipped, hskipped, hperm⟩ := htakes.skips
    refine ⟨fun v hv => ?_, ?_, skipped, ?_, fun other hother hlive => ?_⟩
    · rw [hpop] at hv
      obtain rfl := Option.some.inj hv
      refine ⟨hqueued, fun w hw => ?_⟩
      by_cases hne : w = item.node
      · rw [hne]
      · have hle := (htakes.least h.ordered).2 _ (hrest w hw (fun _ => hend) hne)
        rw [hentry] at hle
        simpa [HeapItem.comp, entry] using hle
    · rw [hpop]
      exact iff_of_false (Option.some_ne_none _) fun hnone => hnone _ hqueued
    · rw [hpop]
      simpa [← hentry] using hperm
    · have hkeep := upToDate_entry_iff.mpr ⟨hlive.1.2.1, hlive.1.2.2, hlive.2⟩
      rw [hskipped other hother] at hkeep
      cases hkeep

omit [Zero K] [Add K] in
/-- A pop adds nothing to the heap. -/
theorem pop_adds_nothing (htakes : Takes HeapItem.comp (upToDate a) a.openHeap item rest) :
    rest.diff a.openHeap = [] := by
  obtain ⟨skipped, -, hperm⟩ := htakes.skips
  apply diff_of_subperm
  have hsub : rest.Sublist (skipped ++ item :: rest) :=
    (List.sublist_cons_self item rest).trans (List.sublist_append_right skipped _)
  exact hsub.subperm.trans hperm.symm.subperm

omit [Zero K] [Add K] in
/-- A heap in which `popOpen` finds nothing. -/
theorem Queue.emptied (h : Queue q a pushed returned) (hdead : ∀ item ∈ a.openHeap, upToDate a item = false) :
    Queue q { a with openHeap := [] } pushed returned := by
  refine ⟨h.own, nofun, fun v hv hend => ?_, isHeap_of_pairwise .nil⟩
  have hkeep := Queued.upToDate (a := a) hv
  rw [hdead _ (h.entries v hv hend)] at hkeep
  cases hkeep

omit [Zero K] [Add K] in
/-- The end of the search leaves the queue. -/
theorem Queue.found (h : Queue q a pushed returned) (htakes : Takes HeapItem.comp (upToDate a) a.openHeap item rest)
    (hend : item.node = q.end_) (path : List Nat) :
    Queue q { a with openHeap := rest, lastPath := path } pushed (returned ++ [item.node]) := by
  refine ⟨h.own, fun other hother => h.items other (htakes.mem.2 other hother), fun v hv hreturned => ?_,
    (htakes.least h.ordered).1⟩
  have hne : v ≠ q.end_ := fun heq => hreturned heq (by simp [hend])
  exact (h.takes htakes).2.2 v hv (fun heq => absurd heq hne) (hend ▸ hne)

omit [Zero K] [Add K] in
/-- A node that is closed leaves the queue. -/
theorem Queue.close (h : Queue q a pushed returned)
    (htakes : Takes HeapItem.comp (upToDate a) a.openHeap item rest) :
    Queue q (({ a with openHeap := rest } : AStar K).setNode item.node { a.nodes item.node with isClosed := true }) pushed
      (returned ++ [item.node]) := by
  have hnodes := setNode_closed ({ a with openHeap := rest } : AStar K) item.node
  refine ⟨fun v hv => ?_, fun other hother => h.items other (htakes.mem.2 other hother), fun v hv hreturned => ?_,
    (htakes.least h.ordered).1⟩
  · rw [hnodes]
    exact h.own v hv
  · obtain ⟨hpushed, -, hopen⟩ := hv
    rw [hnodes] at hopen
    obtain ⟨hne, hopen⟩ : v ≠ item.node ∧ (a.nodes v).isClosed = false := by simpa using hopen
    rw [entry, hnodes]
    refine (h.takes htakes).2.2 v ⟨hpushed, h.own v hpushed, hopen⟩ (fun heq hmem => hreturned heq ?_) hne
    exact List.mem_append_left _ hmem

/-! ## The run -/

omit [Zero K] [Add K] in
/-- A step that adds nothing to the heap. -/
theorem pushedBy_none (pushed : List Nat) (hdiff : m'.1.openHeap.diff m.1.openHeap = []) :
    pushed ++ pushedBy m m' = pushed := by
  rw [pushedBy, hdiff, List.map_nil, List.append_nil]

/-- A round: `popOpen`, and what `findPath` does with the node. -/
theorem Queue.pop {left : Nat} (h : Queue q a pushed returned) (htick : Ticks q (a, .round (left + 1)) m') :
    Queue q m'.1 (pushed ++ pushedBy (a, .round (left + 1)) m')
      (returned ++ returnedBy q (a, .round (left + 1))) := by
  have hcount : Queue q ({ a with count := a.count + 1 } : AStar K) pushed returned :=
    ⟨h.own, h.items, h.entries, h.ordered⟩
  rw [Ticks, AStar.tick] at htick
  rcases popOpen_cases q.std ({ a with count := a.count + 1 } : AStar K) with ⟨hpop, hdead⟩ | ⟨item, rest, hpop, htakes⟩
  · have hreturned : returnedBy q (a, .round (left + 1)) = [] := by simp [returnedBy, hpop]
    rw [hpop] at htick
    cases htick
    rw [pushedBy_none pushed (List.nil_diff _), hreturned, List.append_nil]
    exact hcount.emptied hdead
  · have hreturned : returnedBy q (a, .round (left + 1)) = [item.node] := by simp [returnedBy, hpop]
    rw [hpop] at htick
    rw [hreturned]
    simp only at htick
    split at htick
    · rename_i hend
      obtain ⟨a₁, hwalk, rfl⟩ := Option.map_eq_some_iff.mp htick
      obtain ⟨path, rfl⟩ := walk_lastPath _ _ hwalk
      rw [pushedBy_none pushed (pop_adds_nothing htakes)]
      exact hcount.found htakes hend _
    · cases htick
      rw [pushedBy_none pushed (pop_adds_nothing htakes)]
      exact hcount.close htakes

/-- **One step of the loops.** -/
theorem Queue.tick (h : Queue q m.1 pushed returned) (htick : Ticks q m m') :
    Queue q m'.1 (pushed ++ pushedBy m m') (returned ++ returnedBy q m) := by
  obtain ⟨a, control⟩ := m
  have hsame : a.openHeap.diff a.openHeap = [] := diff_of_subperm (List.Subperm.refl _)
  cases control with
  | round left =>
    cases left with
    | zero =>
      have hreturned : returnedBy q (a, .round 0) = [] := rfl
      rw [Ticks, AStar.tick] at htick
      split_ifs at htick
      cases htick
      rw [pushedBy_none pushed hsame, hreturned, List.append_nil]
      exact ⟨h.own, h.items, h.entries, h.ordered⟩
    | succ left => exact h.pop htick
  | columns left current x =>
    have hreturned : returnedBy q (a, .columns left current x) = [] := rfl
    rw [Ticks, AStar.tick] at htick
    rw [hreturned, List.append_nil]
    split_ifs at htick
    · cases htick
      rw [pushedBy_none pushed hsame]
      exact h
    · cases htick
      rw [pushedBy_none pushed hsame]
      exact h
  | column left current x y =>
    have hreturned : returnedBy q (a, .column left current x y) = [] := rfl
    rw [Ticks, AStar.tick] at htick
    rw [hreturned, List.append_nil]
    split_ifs at htick
    · obtain ⟨a', hvisit, rfl⟩ := Option.map_eq_some_iff.mp htick
      exact h.turn (turn_of_visit hvisit)
    · cases htick
      rw [pushedBy_none pushed hsame]
      exact h
  | finished => cases htick

theorem run_queue (h : Queue q m₀.1 [q.start] []) (hrun : Run q m₀ m pushed returned) :
    Queue q m.1 pushed returned := by
  induction hrun with
  | start => exact h
  | tick _ htick ih => exact ih.tick htick

variable [NatCast K] [OfScientific K]

/-- A run begins with its start in the queue. -/
theorem queue_opens {std : HeapAlgorithms} {map : AbstractMap U} {userdata : U}
    {start end_ : Int × Int} {a a₀ : AStar K}
    (hfresh : Fresh a) (hopens : opens std map a start end_ userdata = some a₀) :
    Queue (query std map a start end_ userdata) a₀ [index map start] [] := by
  have hopened := (opens_spec hfresh hopens).1
  refine ⟨fun v hv => ?_, fun item hitem => ?_, fun v hv _ => ?_, ?_⟩
  · exact (hopened.own v).mpr (.inl (List.mem_singleton.mp hv))
  · exact List.mem_singleton.mpr (hopened.items item hitem)
  · obtain rfl := List.mem_singleton.mp hv.1
    obtain ⟨item, hitem, hf⟩ := hopened.pushed
    have hentry : item = entry a₀ (index map start) := by
      rw [entry, ← hf, ← hopened.items item hitem]
    exact hentry ▸ hitem
  · obtain ⟨-, -, a₁, hprepare, -, -, rfl⟩ := opens_eq hopens
    have hempty := (prepare_same hprepare).1
    have hheap : (arrive map (arrive map a₁ start) end_).openHeap = [] := hempty
    refine std.pushHeap_isHeap HeapItem.comp _ ?_
    rw [List.dropLast_concat, hheap]
    exact isHeap_of_pairwise .nil

/-- **The lazily cleaned heap is a queue with decreasing keys.**  In every state of a run of `findPath`, after
any calls, each node that was pushed and is not closed has an item with its `f`, but for the end that `popOpen`
has returned; and until then, `popOpen` returns such a node with the least `f`, null exactly if there is none,
and skips none of these items. -/
theorem heap_is_queue (std : HeapAlgorithms) (max : Int) (history : List (Call U K)) (a : AStar K)
    (out : List (Option Bool)) (hrun : runOps (step std) (AStar.new max) history = some (a, out))
    (map : AbstractMap U) (userdata : U) (start end_ : Int × Int) (a₀ : AStar K)
    (hopens : opens std map a start end_ userdata = some a₀) (m : AStar K × Control) (pushed returned : List Nat)
    (hm : Run (query std map a start end_ userdata) (a₀, .round a₀.maxCount.toNat) m pushed returned) :
    (∀ v, Queued m.1 pushed v → (v = index map end_ → index map end_ ∉ returned) → entry m.1 v ∈ m.1.openHeap) ∧
      (index map end_ ∉ returned → PopsLeast std m.1 pushed) := by
  have hqueue := run_queue (queue_opens (fresh_of_calls hrun) hopens) hm
  exact ⟨hqueue.entries, fun hend => hqueue.popsLeast hend std⟩

/-- In the map of three cells by two, the end is beside the start: the round after the first one pops it. -/
theorem gate_run : ∃ (a₀ : AStar ℚ) (m m' : AStar ℚ × Control) (pushed returned : List Nat),
    opens HeapAlgorithms.sorted gate (AStar.new 9) (0, 0) (0, 1) () = some a₀ ∧
      Run (query HeapAlgorithms.sorted gate (AStar.new 9) (0, 0) (0, 1) ()) (a₀, .round a₀.maxCount.toNat) m pushed
        returned ∧
      Ticks (query HeapAlgorithms.sorted gate (AStar.new 9) (0, 0) (0, 1) ()) m m' ∧
      m.1.openHeap.map (·.node) = [3, 4] ∧ m'.1.openHeap.map (·.node) = [4] ∧
      (m'.1.nodes 3).generation = m'.1.searchGeneration ∧ (m'.1.nodes 3).isClosed = false := by
  have hticks : ((opens HeapAlgorithms.sorted gate (AStar.new 9 : AStar ℚ) (0, 0) (0, 1) ()).bind fun a₀ =>
      (ticks (query HeapAlgorithms.sorted gate (AStar.new 9) (0, 0) (0, 1) ()) 17 (a₀, .round a₀.maxCount.toNat)).bind
        fun m => (tick (query HeapAlgorithms.sorted gate (AStar.new 9) (0, 0) (0, 1) ()) m).map fun m' =>
          (m.1.openHeap.map (·.node), m'.1.openHeap.map (·.node),
            (m'.1.nodes 3).generation == m'.1.searchGeneration, (m'.1.nodes 3).isClosed)) =
      some ([3, 4], [4], true, false) := by decide +kernel
  obtain ⟨a₀, hopens, hticks⟩ := Option.bind_eq_some_iff.mp hticks
  obtain ⟨m, hm, hticks⟩ := Option.bind_eq_some_iff.mp hticks
  obtain ⟨m', htick, hresult⟩ := Option.map_eq_some_iff.mp hticks
  obtain ⟨pushed, returned, hrun⟩ := run_iff.mpr (ticks_reach 17 hm)
  simp only [Prod.mk.injEq, beq_iff_eq] at hresult
  exact ⟨a₀, m, m', pushed, returned, hopens, hrun, htick, hresult⟩

/-- Before that round. -/
theorem heap_is_queue_gate : ∃ (a₀ : AStar ℚ) (m : AStar ℚ × Control) (pushed returned : List Nat),
    opens HeapAlgorithms.sorted gate (AStar.new 9) (0, 0) (0, 1) () = some a₀ ∧
      Run (query HeapAlgorithms.sorted gate (AStar.new 9) (0, 0) (0, 1) ()) (a₀, .round a₀.maxCount.toNat) m pushed
        returned ∧
      m.1.openHeap.map (·.node) = [3, 4] ∧
      (∀ v, Queued m.1 pushed v → (v = 3 → 3 ∉ returned) → entry m.1 v ∈ m.1.openHeap) ∧
        (3 ∉ returned → PopsLeast HeapAlgorithms.sorted m.1 pushed) := by
  obtain ⟨a₀, m, -, pushed, returned, hopens, hrun, -, hheap, -⟩ := gate_run
  have hqueue := heap_is_queue HeapAlgorithms.sorted 9 [] _ [] rfl gate () (0, 0)
    (0, 1) a₀ hopens m pushed returned hrun
  rw [show index gate (0, 1) = 3 by decide] at hqueue
  exact ⟨a₀, m, pushed, returned, hopens, hrun, hheap, hqueue⟩

/-- The end of the search, when `popOpen` has returned it, is neither closed nor in the heap. -/
theorem end_not_in_heap : ∃ (a₀ : AStar ℚ) (m : AStar ℚ × Control) (pushed returned : List Nat),
    opens HeapAlgorithms.sorted gate (AStar.new 9) (0, 0) (0, 1) () = some a₀ ∧
      Run (query HeapAlgorithms.sorted gate (AStar.new 9) (0, 0) (0, 1) ()) (a₀, .round a₀.maxCount.toNat) m pushed
        returned ∧
      Queued m.1 pushed 3 ∧ ∀ item ∈ m.1.openHeap, item.node ≠ 3 := by
  obtain ⟨a₀, m, m', pushed, returned, hopens, hrun, htick, hheap, hheap', hown, hopen⟩ := gate_run
  have hqueue := run_queue (queue_opens (Fresh.new 9) hopens) hrun
  -- what is in the heap was pushed
  have hpushed : 3 ∈ pushed := by
    have hmem : 3 ∈ m.1.openHeap.map (·.node) := by simp [hheap]
    obtain ⟨item, hitem, hnode⟩ := List.mem_map.mp hmem
    exact hnode ▸ hqueue.items item hitem
  refine ⟨a₀, m', _, _, hopens, hrun.tick htick, ⟨List.mem_append_left _ hpushed, hown, hopen⟩,
    fun item hitem hnode => ?_⟩
  have hmem := List.mem_map_of_mem (f := fun item : HeapItem ℚ => item.node) hitem
  rw [hheap', hnode] at hmem
  simp at hmem

end Libws.Core.AStar
