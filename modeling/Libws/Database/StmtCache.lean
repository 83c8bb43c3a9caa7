import Mathlib.Data.List.AList
import Mathlib.Data.List.Sort
import Libws.Lib.Machine
import Libws.Database.Statement

/-!
# The statement cache of `ws::database::Database`

Model of `Database::prepare`, `freeStatement`, `clearCache` and `cacheSize` of
`wsDatabase/src/Database.cpp` and `database/Database.h`.  The `unordered_map` is an association list with
distinct keys.  What the server answers to a text, the reading of the clock and the order that
`std::sort` leaves the iterators in come with the call.

`within_limit_iff` — the cache respects its limit in every run if that is two or more; a limit of one
drops nothing.
-/

set_option autoImplicit false

namespace Libws.PreparedStatements

open Libws.Machine Libws.Database

abbrev StmtCache := AList fun _ : String => DBStatement

abbrev Item := Sigma fun _ : String => DBStatement

/-- What `std::sort` by `lastUseTime` makes of the iterators; equal ones may come in any order. -/
structure LastUseSort where
  sort : List Item → List Item
  perm : ∀ vec, (sort vec).Perm vec
  sorted : ∀ vec, (sort vec).Pairwise fun a b => ¬ b.2.lastUseTime < a.2.lastUseTime

/-- What `mysql_stmt_prepare` finds in a text. -/
structure Prepared where
  numParams : Nat
  fields : List FieldType
  deriving DecidableEq, Repr

structure Database where
  maxStmtCache : Nat
  stmtCache : StmtCache

namespace Database

/-- The constructor, and `setDBConfig`. -/
def new (maxStmtCache : Nat) : Database := ⟨maxStmtCache, ∅⟩

def cacheSize (db : Database) : Nat := db.stmtCache.keys.length

/-- The loop that erases the first half of the limit. -/
def evict (db : Database) (order : LastUseSort) : Database :=
  let vec := order.sort db.stmtCache.entries
  { db with stmtCache := (vec.take (db.maxStmtCache >>> 1)).foldl (fun cache item => cache.erase item.1) db.stmtCache }

/-- `prepare`; the answer of the server is none on an error. -/
def prepare (db : Database) (sql : String) (answer : Option Prepared) (now : Int) (order : LastUseSort) :
    Database × Option DBStatement :=
  match db.stmtCache.lookup sql with
  | some dbStmt =>
    let dbStmt := { dbStmt with lastUseTime := now }.clear
    ({ db with stmtCache := db.stmtCache.replace sql dbStmt }, some dbStmt)
  | none =>
    match answer with
    | none => (db, none)
    | some prepared =>
      let db := if db.cacheSize ≥ db.maxStmtCache then db.evict order else db
      let dbStmt := { DBStatement.new prepared.numParams prepared.fields sql with lastUseTime := now }
      ({ db with stmtCache := db.stmtCache.insert sql dbStmt }, some dbStmt)

def freeStatement (db : Database) (sql : String) : Database := { db with stmtCache := db.stmtCache.erase sql }

def clearCache (db : Database) : Database := { db with stmtCache := ∅ }

end Database

inductive Call where
  | prepare (sql : String) (answer : Option Prepared) (now : Int) (order : LastUseSort)
  | freeStatement (sql : String)
  | clearCache

def step (db : Database) : Call → Option (Database × Option DBStatement)
  | .prepare sql answer now order => some (db.prepare sql answer now order)
  | .freeStatement sql => some (db.freeStatement sql, none)
  | .clearCache => some (db.clearCache, none)

def WithinLimit (db : Database) : Prop := db.cacheSize ≤ db.maxStmtCache

/-- The call puts a new statement into the cache. -/
def Call.Adds (db : Database) : Call → Prop
  | .prepare sql answer _ _ => sql ∉ db.stmtCache ∧ answer.isSome
  | .freeStatement _ | .clearCache => False

/-- Under a limit of one, a statement is added to an empty cache only. -/
def EmptyForOne (db : Database) (call : Call) : Prop :=
  db.maxStmtCache = 1 → call.Adds db → db.cacheSize = 0

/-! ## Sizes -/

variable {db : Database}

/-- Keys that are erased one after another. -/
theorem keys_foldl_erase :
    ∀ (items : List Item) (cache : StmtCache), (items.map (·.1)).Nodup → (∀ item ∈ items, item.1 ∈ cache) →
      (items.foldl (fun cache item => cache.erase item.1) cache).keys.length + items.length = cache.keys.length
  | [], cache, _, _ => by simp
  | item :: items, cache, hnodup, hmem => by
    rw [List.map_cons, List.nodup_cons] at hnodup
    have hin : item.1 ∈ cache.keys := AList.mem_keys.mp (hmem item (List.mem_cons_self ..))
    have hrest : ∀ other ∈ items, other.1 ∈ cache.erase item.1 := fun other hother => by
      rw [AList.mem_erase]
      refine ⟨fun heq => hnodup.1 (heq ▸ List.mem_map_of_mem hother), hmem other (List.mem_cons_of_mem _ hother)⟩
    have ih := keys_foldl_erase items (cache.erase item.1) hnodup.2 hrest
    rw [AList.keys_erase, List.length_erase_of_mem hin] at ih
    have hpos := List.length_pos_of_mem hin
    simp only [List.foldl_cons, List.length_cons]
    omega

/-- A full cache loses half of the limit, rounded down. -/
theorem cacheSize_evict (order : LastUseSort) (hfull : db.maxStmtCache ≤ db.cacheSize) :
    (db.evict order).cacheSize + db.maxStmtCache / 2 = db.cacheSize := by
  have hkeys : ((order.sort db.stmtCache.entries).map (·.1)).Perm db.stmtCache.keys :=
    (order.perm db.stmtCache.entries).map (·.1)
  have hlength : (order.sort db.stmtCache.entries).length = db.cacheSize := by
    rw [Database.cacheSize, ← hkeys.length_eq, List.length_map]
  have hnodup : (((order.sort db.stmtCache.entries).take (db.maxStmtCache >>> 1)).map (·.1)).Nodup := by
    rw [List.map_take]
    exact (hkeys.nodup_iff.mpr db.stmtCache.keys_nodup).sublist (List.take_sublist _ _)
  have hsize := keys_foldl_erase _ db.stmtCache hnodup fun item hitem =>
    AList.mem_keys.mp (hkeys.mem_iff.mp (List.mem_map_of_mem (List.mem_of_mem_take hitem)))
  have hhalf : db.maxStmtCache >>> 1 = db.maxStmtCache / 2 := Nat.shiftRight_eq_div_pow _ 1
  rw [List.length_take, hlength, hhalf, Nat.min_eq_left (by omega)] at hsize
  simpa only [Database.cacheSize, Database.evict, hhalf] using hsize

/-- A new statement makes the cache larger by one. -/
theorem cacheSize_insert {sql : String} (hnew : sql ∉ db.stmtCache) (dbStmt : DBStatement) :
    ({ db with stmtCache := db.stmtCache.insert sql dbStmt } : Database).cacheSize = db.cacheSize + 1 := by
  rw [Database.cacheSize, AList.keys_insert, List.erase_of_not_mem (fun h => hnew (AList.mem_keys.mp h))]
  rfl

theorem foldl_erase_subset :
    ∀ (items : List Item) (cache : StmtCache) (sql : String),
      sql ∈ items.foldl (fun cache item => cache.erase item.1) cache → sql ∈ cache
  | [], _, _, h => h
  | item :: items, cache, sql, h =>
    (AList.mem_erase.mp (foldl_erase_subset items (cache.erase item.1) sql h)).2

/-- The size of the cache after a statement was added. -/
theorem cacheSize_prepare {sql : String} {prepared : Prepared} {now : Int} {order : LastUseSort}
    (hnew : sql ∉ db.stmtCache) (hlimit : WithinLimit db) :
    (db.prepare sql (some prepared) now order).1.cacheSize +
        (if db.cacheSize = db.maxStmtCache then db.maxStmtCache / 2 else 0) = db.cacheSize + 1 := by
  rw [Database.prepare, AList.lookup_eq_none.mpr hnew]
  simp only [WithinLimit] at hlimit ⊢
  by_cases hfull : db.cacheSize ≥ db.maxStmtCache
  · rw [if_pos hfull, if_pos (by omega)]
    have hnew' : sql ∉ (db.evict order).stmtCache := fun h => hnew (foldl_erase_subset _ _ _ h)
    have hevict := cacheSize_evict order hfull
    rw [cacheSize_insert hnew']
    omega
  · rw [if_neg hfull, if_neg (by omega), cacheSize_insert hnew]

theorem maxStmtCache_prepare (db : Database) (sql : String) (answer : Option Prepared) (now : Int)
    (order : LastUseSort) : (db.prepare sql answer now order).1.maxStmtCache = db.maxStmtCache := by
  unfold Database.prepare
  split
  · rfl
  · split
    · rfl
    · simp only
      split <;> rfl

/-- A statement that is cached, or that the server does not take. -/
theorem cacheSize_prepare_same {sql : String} {answer : Option Prepared}
    (h : ¬ (sql ∉ db.stmtCache ∧ answer.isSome))
    (now : Int) (order : LastUseSort) : (db.prepare sql answer now order).1.cacheSize = db.cacheSize := by
  unfold Database.prepare
  split
  · rw [Database.cacheSize, AList.keys_replace, Database.cacheSize]
  · rename_i hlookup
    split
    · rfl
    · exact absurd ⟨AList.lookup_eq_none.mp hlookup, rfl⟩ h

/-! ## Runs -/

/-- **One call**: it may add a statement, which makes room first if the cache is full. -/
theorem step_cases {call : Call} {db' : Database} {r : Option DBStatement} (hlimit : WithinLimit db)
    (hstep : step db call = some (db', r)) :
    db'.maxStmtCache = db.maxStmtCache ∧
      (¬ call.Adds db → db'.cacheSize ≤ db.cacheSize) ∧
      (call.Adds db →
        db'.cacheSize + (if db.cacheSize = db.maxStmtCache then db.maxStmtCache / 2 else 0) =
          db.cacheSize + 1) := by
  cases call with
  | prepare sql answer now order =>
    have hresult : (db.prepare sql answer now order).1 = db' := congrArg Prod.fst (Option.some.inj hstep)
    rw [← hresult]
    refine ⟨maxStmtCache_prepare db sql answer now order, fun h => ?_, fun h => ?_⟩
    · exact Nat.le_of_eq (cacheSize_prepare_same h now order)
    · obtain ⟨hnew, hanswer⟩ := h
      obtain ⟨prepared, rfl⟩ := Option.isSome_iff_exists.mp hanswer
      exact cacheSize_prepare hnew hlimit
  | freeStatement sql =>
    have hresult : db.freeStatement sql = db' := congrArg Prod.fst (Option.some.inj hstep)
    rw [← hresult]
    refine ⟨rfl, fun _ => ?_, fun h => absurd h id⟩
    rw [Database.cacheSize, Database.freeStatement, AList.keys_erase]
    exact List.length_erase_le
  | clearCache =>
    have hresult : db.clearCache = db' := congrArg Prod.fst (Option.some.inj hstep)
    rw [← hresult]
    exact ⟨rfl, fun _ => Nat.zero_le _, fun h => absurd h id⟩

/-- A limit that was set, and respected. -/
structure Inv (db : Database) : Prop where
  positive : 1 ≤ db.maxStmtCache
  limit : WithinLimit db

theorem step_keeps {call : Call} {db' : Database} {r : Option DBStatement} (h : Inv db) (hok : EmptyForOne db call)
    (hstep : step db call = some (db', r)) : Inv db' := by
  obtain ⟨hpositive, hlimit⟩ := h
  obtain ⟨hmax, hsame, hadd⟩ := step_cases hlimit hstep
  unfold WithinLimit at hlimit
  refine ⟨hmax ▸ hpositive, ?_⟩
  unfold WithinLimit
  by_cases hadds : call.Adds db
  · have hsize := hadd hadds
    have hempty : db.maxStmtCache = 1 → db.cacheSize = 0 := fun hone => hok hone hadds
    split at hsize <;> omega
  · have hsize := hsame hadds
    omega

/-- Under a limit of one, nothing makes room. -/
theorem step_needs {call : Call} (h : Inv db) (hwithin : ∀ db' r, step db call = some (db', r) → WithinLimit db') :
    EmptyForOne db call := by
  intro hone hadds
  obtain ⟨db', r, hstep⟩ : ∃ db' r, step db call = some (db', r) := by cases call <;> exact ⟨_, _, rfl⟩
  obtain ⟨hmax, -, hadd⟩ := step_cases h.limit hstep
  have hsize := hadd hadds
  have hafter := hwithin db' r hstep
  unfold WithinLimit at hafter
  split at hsize <;> omega

/-- **The limit of the cache.**  From a new connection with a limit of at least one, the cache is within
its limit after every call if and only if, under a limit of one, statements are added to an empty
cache only. -/
theorem within_limit_iff (maxStmtCache : Nat) (h : 1 ≤ maxStmtCache) (calls : List Call) :
    Always step WithinLimit (.new maxStmtCache) calls ↔ Along step EmptyForOne (.new maxStmtCache) calls :=
  always_iff_along Inv (fun _ hdb => hdb.limit) (fun _ _ _ _ hdb hok hstep => step_keeps hdb hok hstep)
    (fun _ _ hdb hwithin => step_needs hdb hwithin) calls (.new maxStmtCache) ⟨h, Nat.zero_le _⟩

/-- The iterators that are sorted one by one. -/
def insertionOrder : LastUseSort where
  sort := List.insertionSort fun a b => a.2.lastUseTime ≤ b.2.lastUseTime
  perm := List.perm_insertionSort _
  sorted vec := by
    have : Std.Total fun a b : Item => a.2.lastUseTime ≤ b.2.lastUseTime := ⟨fun a b => Int.le_total _ _⟩
    have : IsTrans Item fun a b => a.2.lastUseTime ≤ b.2.lastUseTime := ⟨fun _ _ _ => Int.le_trans⟩
    exact (List.pairwise_insertionSort (fun a b : Item => a.2.lastUseTime ≤ b.2.lastUseTime) vec).imp Int.not_lt.mpr

/-- Three statements under a limit of two: the first one makes room for the third. -/
theorem within_limit_iff_two :
    Always step WithinLimit (.new 2)
      [.prepare "SELECT 1" (some ⟨0, [.LONG]⟩) 1 insertionOrder, .prepare "SELECT 2" (some ⟨0, [.LONG]⟩) 2 insertionOrder,
        .prepare "SELECT 3" (some ⟨0, [.LONG]⟩) 3 insertionOrder] :=
  (within_limit_iff 2 (by decide) _).mpr
    ⟨fun h => absurd h (by decide), fun _ _ h => by
      cases h
      exact ⟨fun h => absurd h (by decide), fun _ _ h => by
        cases h
        exact ⟨fun h => absurd h (by decide), fun _ _ _ => trivial⟩⟩⟩

/-- A limit of one does not keep the second statement out, nor the first one in its place. -/
theorem limit_of_one_exceeded :
    ¬ ∀ (maxStmtCache : Nat), 1 ≤ maxStmtCache →
      ∀ calls : List Call, Always step WithinLimit (.new maxStmtCache) calls := by
  intro hall
  have hruns := hall 1 (by decide)
    [.prepare "SELECT 1" (some ⟨0, [.LONG]⟩) 1 insertionOrder,
      .prepare "SELECT 2" (some ⟨0, [.LONG]⟩) 2 insertionOrder]
  exact absurd (hruns.2 _ _ rfl |>.2 _ _ rfl) (by unfold Always WithinLimit; decide)

end Libws.PreparedStatements
