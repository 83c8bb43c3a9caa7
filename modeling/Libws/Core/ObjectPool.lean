import Mathlib.Data.List.Basic

/-!
# `ws::core::ObjectPool`

Model of `include/ws/core/ObjectPool.h`: a stack of objects.  `alloc` makes a new object only when the pool is
empty; `free` leaves the object with its caller when the pool is full.
-/

set_option autoImplicit false

namespace Libws.Core

structure ObjectPool (T : Type) where
  capacity : Nat
  list : List T
  deriving DecidableEq, Repr

namespace ObjectPool

variable {T : Type}

/-- The constructor, with the objects that it makes. -/
def new (capacity : Nat) (objs : List T) : ObjectPool T := ⟨capacity, objs⟩

/-- `alloc`, with the object that `make_unique` would make, and whether it is made. -/
def alloc (pool : ObjectPool T) (made : T) : ObjectPool T × T × Bool :=
  match pool.list.getLast? with
  | some obj => ({ pool with list := pool.list.dropLast }, obj, false)
  | none => (pool, made, true)

/-- `free`, with what is left to the caller. -/
def free (pool : ObjectPool T) (obj : T) : ObjectPool T × Option T :=
  if pool.list.length < pool.capacity then ({ pool with list := pool.list ++ [obj] }, none) else (pool, some obj)

def size (pool : ObjectPool T) : Nat := pool.list.length

theorem alloc_cases (pool : ObjectPool T) (made : T) :
    (∃ rest obj, pool.list = rest ++ [obj] ∧ pool.alloc made = ({ pool with list := rest }, obj, false)) ∨
      pool.list = [] ∧ pool.alloc made = (pool, made, true) := by
  rcases List.eq_nil_or_concat pool.list with hnil | ⟨rest, obj, hlist⟩
  · exact Or.inr ⟨hnil, by rw [alloc, hnil]; rfl⟩
  · rw [List.concat_eq_append] at hlist
    refine Or.inl ⟨rest, obj, hlist, ?_⟩
    rw [alloc, hlist, List.getLast?_concat, List.dropLast_concat]

theorem free_cases (pool : ObjectPool T) (obj : T) :
    pool.free obj = ({ pool with list := pool.list ++ [obj] }, none) ∧ pool.list.length < pool.capacity ∨
      pool.free obj = (pool, some obj) ∧ pool.capacity ≤ pool.list.length := by
  by_cases h : pool.list.length < pool.capacity
  · exact Or.inl ⟨if_pos h, h⟩
  · exact Or.inr ⟨if_neg h, Nat.not_lt.mp h⟩

end ObjectPool

end Libws.Core
