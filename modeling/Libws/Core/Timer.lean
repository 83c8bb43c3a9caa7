import Mathlib.Algebra.Group.Int.Defs
import Mathlib.Algebra.Group.Nat.Defs
import Mathlib.Logic.Function.Basic

/-!
# `ws::core::Timer`

Model of `include/ws/core/Timer.h` and `wsCore/src/Timer.cpp` as a machine of atomic steps: the
worker goes round `dispatch()`, `++tick`, `expand()`, and `addTimeCall`, `remove` and the steps of
`update` come between any two of them.

* A `SchedulePtr` is an address of `heap`; the addresses below `next` are in use.
* `wheel (.near i)` is `nearFuture[i]`, `wheel (.far l i)` is `farFuture[l][i]`; a list is written
  from its front.
* `ticks` counts the `++tick` so far; the code's `tick` is that number modulo `2 ^ 32`.
* A callback is named by a number; `none` is the empty function.  Durations are milliseconds.
* A running `update` is a frame: its number, and what is left of its `callList`.  A callback may
  call `update` again, so the frames are a stack.
-/

set_option autoImplicit false

namespace Libws.Core

def MIN_INTERVAL : Int := 10
def NEAR_FUTURE : Nat := 256
def NEAR_MASK : Nat := 255
def NUM_FAR_WHEEL : Nat := 4
def FAR_FUTURE : Nat := 64
def FAR_MASK : Nat := 63

structure Schedule where
  id : Nat
  index : Nat
  remainTimes : Int
  interval : Int
  callback : Option Nat
  deriving DecidableEq, Repr

/-- A list of the wheel. -/
inductive Slot where
  | near (index : Nat)
  | far (level index : Nat)
  deriving DecidableEq, Repr

/-- The next step of the worker. -/
inductive Phase where
  | dispatch
  | tick
  | expand
  deriving DecidableEq, Repr

structure Timer where
  heap : Nat → Schedule
  next : Nat
  ticks : Nat
  lastID : Nat
  wheel : Slot → List Nat
  dispatchList : List Nat
  scheduleList : Nat → Option Nat
  phase : Phase
  frames : List (Nat × List Nat)
  updates : Nat

inductive Action where
  | addTimeCall (interval : Int) (callback : Option Nat) (times : Int)
  | remove (id : Nat)
  /-- `update`: the swap of `dispatchList` -/
  | update
  /-- the innermost `update`: its next item, or its return -/
  | updateNext
  /-- the next step of the worker -/
  | worker
  deriving DecidableEq, Repr

inductive Event where
  | returned (id : Nat)
  /-- the dispatch of `tick`, with what it pushed to `dispatchList`, from its front -/
  | dispatched (tick : Nat) (pushed : List Nat)
  | invoked (update schedule callback : Nat)
  deriving DecidableEq, Repr

namespace Timer

/-- The constructor. -/
def new : Timer :=
  { heap := fun _ => ⟨0, 0, 0, 0, none⟩, next := 0, ticks := 0, lastID := 0, wheel := fun _ => [],
    dispatchList := [], scheduleList := fun _ => none, phase := .dispatch, frames := [], updates := 0 }

def tick (t : Timer) : Nat := t.ticks % 2 ^ 32

/-- `push_front` on a list of the wheel. -/
def pushFront (t : Timer) (slot : Slot) (item : Nat) : Timer :=
  { t with wheel := Function.update t.wheel slot (item :: t.wheel slot) }

/-- `clear` on a list of the wheel. -/
def clearSlot (t : Timer) (slot : Slot) : Timer := { t with wheel := Function.update t.wheel slot [] }

def setSchedule (t : Timer) (item : Nat) (schedule : Schedule) : Timer :=
  { t with heap := Function.update t.heap item schedule }

/-- The loop of `insert` over the `left` levels from `level` on. -/
def insertFar (t : Timer) (item : Nat) : (left level interval index : Nat) → Timer
  | 0, _, _, _ => t
  | left + 1, level, interval, index =>
    if interval < FAR_FUTURE then t.pushFront (.far level (index &&& FAR_MASK)) item
    else t.insertFar item left (level + 1) (interval >>> 6) (index >>> 6)

def insert (t : Timer) (item : Nat) : Timer :=
  let interval := (t.heap item).interval.tdiv MIN_INTERVAL
  let index := ((t.tick + interval) % 2 ^ 32).toNat
  let t := t.setSchedule item { t.heap item with index := index }
  if interval < NEAR_FUTURE then t.pushFront (.near (index &&& NEAR_MASK)) item
  else t.insertFar item NUM_FAR_WHEEL 0 (interval.toNat >>> 8) (index >>> 8)

def addTimeCall (t : Timer) (interval : Int) (callback : Option Nat) (times : Int) : Timer × Nat :=
  if callback.isSome ∧ times ≠ 0 ∧ (times = 1 ∨ interval ≥ MIN_INTERVAL) then
    let id := (t.lastID + 1) % 2 ^ 32
    let item := t.next
    let t := { t.setSchedule item ⟨id, 0, times, interval, callback⟩ with next := item + 1, lastID := id }
    let t := t.insert item
    ({ t with scheduleList := Function.update t.scheduleList id (some item) }, id)
  else (t, 0)

def remove (t : Timer) (id : Nat) : Timer :=
  match t.scheduleList id with
  | none => t
  | some item =>
    { t.setSchedule item { t.heap item with remainTimes := 0, callback := none } with
      scheduleList := Function.update t.scheduleList id none }

def move (t : Timer) (item : Nat) : (level : Nat) → Timer
  | 0 => t.pushFront (.near ((t.heap item).index &&& NEAR_MASK)) item
  | level + 1 =>
    let index := ((t.heap item).index >>> (level * 6 + 8)) &&& FAR_MASK
    if index = 0 then t.move item level else t.pushFront (.far level index) item

/-- The body of the loop of `expand`: `move` writes to lower levels only, so the list that it goes
    through is the one from before. -/
def cascade (t : Timer) (level index : Nat) : Timer :=
  ((t.wheel (.far level index)).foldl (fun t item => t.move item level) t).clearSlot (.far level index)

/-- The loop of `expand` over the `left` levels from `level` on. -/
def carry (t : Timer) : (left level farTick : Nat) → Timer
  | 0, _, _ => t
  | left + 1, level, farTick =>
    let index := farTick &&& FAR_MASK
    let t := t.cascade level index
    if index ≠ 0 then t else t.carry left (level + 1) (farTick >>> 6)

def expand (t : Timer) : Timer :=
  if t.tick &&& NEAR_MASK = 0 then t.carry NUM_FAR_WHEEL 0 (t.tick >>> 8) else t

/-- The body of the loop of `dispatch`. -/
def dispatchItem (t : Timer) (item : Nat) : Timer :=
  let schedule := t.heap item
  if schedule.remainTimes ≠ 0 then
    let t := { t with dispatchList := item :: t.dispatchList }
    if schedule.remainTimes = -1 then t.insert item
    else
      let remainTimes := schedule.remainTimes - 1
      let t := t.setSchedule item { schedule with remainTimes := remainTimes }
      if remainTimes > 0 then t.insert item
      else { t with scheduleList := Function.update t.scheduleList schedule.id none }
  else t

def dispatch (t : Timer) : Timer :=
  let slot := Slot.near (t.tick &&& NEAR_MASK)
  ((t.wheel slot).foldl dispatchItem t).clearSlot slot

/-- What the step from `t` to `t'` put in front of `dispatchList`. -/
def pushed (t t' : Timer) : List Nat :=
  t'.dispatchList.take (t'.dispatchList.length - t.dispatchList.length)

/-- One round of `timerProc`, step by step. -/
def workerStep (t : Timer) : Timer × List Event :=
  match t.phase with
  | .dispatch => ({ t.dispatch with phase := .tick }, [.dispatched t.tick (t.pushed t.dispatch)])
  | .tick => ({ t with ticks := t.ticks + 1, phase := .expand }, [])
  | .expand => ({ t.expand with phase := .dispatch }, [])

def step (t : Timer) : Action → Option (Timer × List Event)
  | .addTimeCall interval callback times =>
    let added := t.addTimeCall interval callback times
    some (added.1, [.returned added.2])
  | .remove id => some (t.remove id, [])
  | .update =>
    some ({ t with frames := (t.updates, t.dispatchList) :: t.frames, dispatchList := [],
                   updates := t.updates + 1 }, [])
  | .updateNext =>
    match t.frames with
    | [] => none
    | (_, []) :: frames => some ({ t with frames := frames }, [])
    | (update, item :: callList) :: frames =>
      let t' := { t with frames := (update, callList) :: frames }
      match (t.heap item).callback with
      | none => some (t', [])
      | some callback => some (t', [.invoked update item callback])
  | .worker => some t.workerStep

end Timer

end Libws.Core
