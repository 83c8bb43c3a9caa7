import Mathlib.Algebra.Group.Int.Defs
import Mathlib.Algebra.Group.Nat.Defs
import Libws.Lib.Heap
import Libws.Lib.Integer
import Libws.Lib.Loop

/-!
# `ws::core::AStar`

Model of `include/ws/core/AStar.h` and `wsCore/src/AStar.cpp`.

* A `PathNode *` is the address `row * NUM_NODE_SIZE + col` of `mapNodes[row][col]`; `mapNodes` is
  the number of rows and `nodes` what their nodes hold.
* The costs are of any type `K` with the operations that the code uses on `double`, and so are what
  `heuristic` and `getCost` make of their coordinates; `searchGeneration` wraps.
* `isBlock x y` is the answer of the map to the arguments cast to `uint32_t`.
* `push_heap` and `pop_heap` are a parameter.
* `none` is undefined behaviour: an access through a null `PathNode *`, an `int` that overflows, or a
  loop that never ends.
-/

set_option autoImplicit false

namespace Libws.Core

open Libws.Heap Libws.Integer Libws.Loop

def NUM_NODE_SIZE : Nat := 1024

/-- The type `int`. -/
abbrev int : IntType := .int true .w32

/-- The width and the height are `uint32_t`. -/
structure AbstractMap (U : Type) where
  getWidth : Nat
  getHeight : Nat
  isBlock : Int → Int → U → Bool
  width_lt : getWidth < 2 ^ 32 := by decide
  height_lt : getHeight < 2 ^ 32 := by decide

structure PathNode (K : Type) where
  x : Int
  y : Int
  h : K
  g : K
  f : K
  isClosed : Bool
  generation : Nat
  parent : Option Nat
  deriving DecidableEq, Repr

structure HeapItem (K : Type) where
  f : K
  node : Nat
  deriving DecidableEq, Repr

structure AStar (K : Type) where
  count : Int
  maxCount : Int
  searchGeneration : Nat
  openHeap : List (HeapItem K)
  lastPath : List Nat
  mapNodes : Nat
  nodes : Nat → PathNode K
  heuristic : Option (Int → Int → Int → Int → K)
  getCost : Option (Int → Int → Int → Int → K)

variable {U K : Type} [Zero K] [Add K] [LT K] [DecidableLT K] [BEq K] [NatCast K] [OfScientific K]

/-- The constructor, and what `memset` to 0 leaves. -/
def PathNode.new : PathNode K := ⟨0, 0, 0, 0, 0, false, 0, none⟩

/-- The order of the heap: `a.f > b.f`. -/
def HeapItem.comp (a b : HeapItem K) : Bool := decide (a.f > b.f)

namespace AStar

/-- The constructor. -/
def new (max : Int) : AStar K := ⟨0, max, 0, [], [], 0, fun _ => PathNode.new, none, none⟩

/-- The differences are `int`s where both cells are in the map. -/
def manhattanDistance (x y endX endY : Int) : K := ((x - endX).natAbs : K) + ((y - endY).natAbs : K)

def commonCost (x1 y1 x2 y2 : Int) : K := if x1 ≠ x2 ∧ y1 ≠ y2 then 1.414 else 1.0

def setNode (a : AStar K) (node : Nat) (value : PathNode K) : AStar K :=
  { a with nodes := Function.update a.nodes node value }

/-- `ceil` of the product is exact in `double` wherever it is an `int`. -/
def resizeMap (a : AStar K) (w h : Int) : Option (AStar K) :=
  let requireSize := (w * h + (NUM_NODE_SIZE - 1)) / NUM_NODE_SIZE
  let oldSize := a.mapNodes
  if int.Represents requireSize then
    if oldSize < requireSize then
      some { a with
        mapNodes := requireSize.toNat
        nodes := fun node =>
          if oldSize * NUM_NODE_SIZE ≤ node ∧ node < requireSize.toNat * NUM_NODE_SIZE then PathNode.new
          else a.nodes node }
    else some a
  else none

/-- `++searchGeneration`, with the reset of all nodes when it wraps. -/
def nextGeneration (a : AStar K) : AStar K :=
  let searchGeneration := (a.searchGeneration + 1) % 2 ^ 32
  if searchGeneration = 0 then { a with nodes := fun _ => PathNode.new, searchGeneration := 1 }
  else { a with searchGeneration := searchGeneration }

def getNode (a : AStar K) (x y width : Int) : Option (AStar K × Option Nat) :=
  let index := y * width + x
  if int.Represents (y * width) ∧ int.Represents index then
    if index < 0 then some (a, none)
    else
      let row := index.toNat >>> 10
      let col := index.toNat - (row <<< 10)
      if row < a.mapNodes then
        let node := row * NUM_NODE_SIZE + col
        if (a.nodes node).generation ≠ a.searchGeneration then
          some (a.setNode node ⟨x, y, 0, 0, 0, false, a.searchGeneration, none⟩, some node)
        else some (a.setNode node { a.nodes node with x := x, y := y }, some node)
      else some (a, none)
  else none

def pushOpen (std : HeapAlgorithms) (a : AStar K) (node : Nat) : AStar K :=
  { a with openHeap := std.pushHeap HeapItem.comp (a.openHeap ++ [⟨(a.nodes node).f, node⟩]) }

/-- The loop of `popOpen` over the `left` items of the heap. -/
def popFrom (std : HeapAlgorithms) : (left : Nat) → AStar K → AStar K × Option Nat
  | 0, a => (a, none)
  | left + 1, a =>
    let openHeap := std.popHeap HeapItem.comp a.openHeap
    match openHeap.getLast? with
    | none => (a, none)
    | some item =>
      let a := { a with openHeap := openHeap.dropLast }
      if (a.nodes item.node).generation ≠ a.searchGeneration ∨ (a.nodes item.node).isClosed then popFrom std left a
      else if !(item.f == (a.nodes item.node).f) then popFrom std left a
      else (a, some item.node)

def popOpen (std : HeapAlgorithms) (a : AStar K) : AStar K × Option Nat := popFrom std a.openHeap.length a

/-- The loop `while (current->parent)` for at most `left` nodes. -/
def walk : (left : Nat) → (current : Nat) → AStar K → Option (AStar K)
  | 0, _, _ => none
  | left + 1, current, a =>
    match (a.nodes current).parent with
    | none => some a
    | some parent => walk left parent { a with lastPath := current :: a.lastPath }

/-- `node` is reached from `current` for `g`. -/
def reach (std : HeapAlgorithms) (a : AStar K) (node current : Nat) (h g : K) : AStar K :=
  (a.setNode node { a.nodes node with h := h, g := g, f := g + h, parent := some current }).pushOpen std node

/-- The body of the two loops around `current`. -/
def visit (std : HeapAlgorithms) (map : AbstractMap U) (userdata : U)
    (heuristic getCost : Int → Int → Int → Int → K) (current end_ : Nat) (a : AStar K) (cell : Int × Int) :
    Option (AStar K) :=
  let (x, y) := cell
  if x < 0 ∨ x ≥ map.getWidth then some a
  else if y < 0 ∨ y ≥ map.getHeight then some a
  else if x = (a.nodes current).x ∧ y = (a.nodes current).y then some a
  else if map.isBlock x y userdata then some a
  else
    match a.getNode x y (int.cast map.getWidth) with
    | none | some (_, none) => none
    | some (a, some node) =>
      if (a.nodes node).isClosed then some a
      else
        let g := (a.nodes current).g + getCost (a.nodes current).x (a.nodes current).y x y
        if !((a.nodes node).g == 0) then
          if g < (a.nodes node).g then some (a.reach std node current (a.nodes node).h g) else some a
        else some (a.reach std node current (heuristic x y (a.nodes end_).x (a.nodes end_).y) g)

/-- The loop over `y` at one `x`.  Its bound is read from `current`, which `getNode` may have moved. -/
def visitColumn (std : HeapAlgorithms) (map : AbstractMap U) (userdata : U)
    (heuristic getCost : Int → Int → Int → Int → K) (current end_ : Nat) (x : Int) (a : AStar K) :
    Option (AStar K) :=
  forUpTo int.Represents (fun a => (a.nodes current).y + 1)
    (fun y a => visit std map userdata heuristic getCost current end_ a (x, y))
    (map.getHeight + 4) ((a.nodes current).y - 1) a

/-- The loop over `x`. -/
def visitColumns (std : HeapAlgorithms) (map : AbstractMap U) (userdata : U)
    (heuristic getCost : Int → Int → Int → Int → K) (current end_ : Nat) (a : AStar K) : Option (AStar K) :=
  forUpTo int.Represents (fun a => (a.nodes current).x + 1)
    (fun x a => visitColumn std map userdata heuristic getCost current end_ x a)
    (map.getWidth + 4) ((a.nodes current).x - 1) a

/-- The loop `while (count++ < maxCount)`, with `left = maxCount - count`. -/
def search (std : HeapAlgorithms) (map : AbstractMap U) (userdata : U)
    (heuristic getCost : Int → Int → Int → Int → K) (end_ : Nat) : (left : Nat) → AStar K → Option (AStar K)
  | 0, a => if int.Represents (a.count + 1) then some { a with count := a.count + 1 } else none
  | left + 1, a =>
    match { a with count := a.count + 1 }.popOpen std with
    | (a, none) => some a
    | (a, some current) =>
      if current = end_ then a.walk (a.mapNodes * NUM_NODE_SIZE + 1) current
      else
        let a := a.setNode current { a.nodes current with isClosed := true }
        match visitColumns std map userdata heuristic getCost current end_ a with
        | none => none
        | some a => search std map userdata heuristic getCost end_ left a

/-- `findPath` before its first `getNode`: nodes for a new search, and defaults for the functions
that are not set. -/
def prepare (map : AbstractMap U) (a : AStar K) : Option (AStar K) := do
  let a ← a.resizeMap (int.cast map.getWidth) (int.cast map.getHeight)
  let a := a.nextGeneration
  some { a with
    heuristic := some (a.heuristic.getD manhattanDistance)
    getCost := some (a.getCost.getD commonCost) }

def findPath (std : HeapAlgorithms) (map : AbstractMap U) (a : AStar K) (startX startY endX endY : Int)
    (userdata : U) : Option (AStar K × Bool) :=
  let a := { a with lastPath := [], openHeap := [] }
  if startX = endX ∧ startY = endY then some (a, true)
  else if map.isBlock endX endY userdata then some (a, false)
  else do
    let heuristic := a.heuristic.getD manhattanDistance
    let getCost := a.getCost.getD commonCost
    let a ← a.prepare map
    let (a, start) ← a.getNode startX startY (int.cast map.getWidth)
    let (a, end_) ← a.getNode endX endY (int.cast map.getWidth)
    match start, end_ with
    | some start, some end_ =>
      match search std map userdata heuristic getCost end_ a.maxCount.toNat ({ a with count := 0 }.pushOpen std start) with
      | none => none
      | some a => some ({ a with openHeap := [] }, !a.lastPath.isEmpty)
    | _, _ => some (a, false)

/-- What a program does with an `AStar`: it searches, and it sets the two public functions. -/
inductive Call (U K : Type) where
  | findPath (map : AbstractMap U) (startX startY endX endY : Int) (userdata : U)
  | setHeuristic (heuristic : Option (Int → Int → Int → Int → K))
  | setGetCost (getCost : Option (Int → Int → Int → Int → K))

/-- One call, with what `findPath` returned. -/
def step (std : HeapAlgorithms) (a : AStar K) : Call U K → Option (AStar K × Option Bool)
  | .findPath map startX startY endX endY userdata =>
    match a.findPath std map startX startY endX endY userdata with
    | none => none
    | some (a, found) => some (a, some found)
  | .setHeuristic heuristic => some ({ a with heuristic := heuristic }, none)
  | .setGetCost getCost => some ({ a with getCost := getCost }, none)

end AStar

end Libws.Core
