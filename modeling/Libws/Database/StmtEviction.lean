import Mathlib.Data.Finset.Card
import Libws.Database.StmtCache

/-!
# Which statements `ws::database::Database::prepare` evicts

The loop that erases from the cache, with its index checked against the vector, and the uses of a
statement over a run of calls.

* `eraseLoop_evict` — a full cache has half of the limit of iterators at least: the loop stays in the
  vector.
* `Recorded` — what holds along every run under a clock that does not go back: a statement is cached under
  its own text, and stamped with its last use.
* `least_recently_used` — a miss that finds the cache full removes half of the limit, none used later than
  one that is kept.  Every other call of `prepare` removes nothing.
-/

set_option autoImplicit false

namespace Libws.PreparedStatements

open Libws.Machine Libws.Database

/-- The erase loop, with `left` turns to go; none is an index outside of the vector. -/
def eraseLoop (vec : List Item) : Nat → Nat → StmtCache → Option StmtCache
  | 0, _, cache => some cache
  | left + 1, i, cache =>
    match vec[i]? with
    | none => none
    | some item => eraseLoop vec left (i + 1) (cache.erase item.1)

/-- The statement that a call of `prepare` returned was used when the clock was read. -/
def Call.use : Call → Option DBStatement → Option (String × Int)
  | .prepare sql _ now _, some _ => some (sql, now)
  | .prepare .., none | .freeStatement _, _ | .clearCache, _ => none

/-- The statement was used at that time: in the calls, or last before them. -/
def Used (start : Database) (calls : List Call) (results : List (Option DBStatement)) (sql : String)
    (t : Int) : Prop :=
  (∃ dbStmt ∈ start.stmtCache.lookup sql, dbStmt.lastUseTime = t) ∨
    (sql, t) ∈ (calls.zip results).filterMap fun p => p.1.use p.2

def Call.clock : Call → List Int
  | .prepare _ _ now _ => [now]
  | .freeStatement _ | .clearCache => []

/-- The clock does not go back. -/
structure Steady (start : Database) (calls : List Call) : Prop where
  nondecreasing : (calls.flatMap Call.clock).Pairwise (· ≤ ·)
  since : ∀ sql, ∀ dbStmt ∈ start.stmtCache.lookup sql, ∀ t ∈ calls.flatMap Call.clock, dbStmt.lastUseTime ≤ t

/-- Every statement is cached under its own text. -/
def Coherent (db : Database) : Prop := ∀ sql, ∀ dbStmt ∈ db.stmtCache.lookup sql, dbStmt.sql = sql

/-- No parameter is bound. -/
def Unbound (dbStmt : DBStatement) : Prop := dbStmt.paramIndex = 0 ∧ ∀ b ∈ dbStmt.paramBind, b = .zero

def removed (db db' : Database) : Finset String := db.stmtCache.keys.toFinset \ db'.stmtCache.keys.toFinset

/-- A call of `prepare` that makes room: a text that is not cached, and that the server takes, in a full cache. -/
def MakesRoom (db : Database) (sql : String) (answer : Option Prepared) : Prop :=
  sql ∉ db.stmtCache ∧ answer.isSome ∧ db.maxStmtCache ≤ db.cacheSize

/-- What a hit returns. -/
def reused (dbStmt : DBStatement) (now : Int) : DBStatement := { dbStmt with lastUseTime := now }.clear

/-- What a miss returns. -/
def fresh (prepared : Prepared) (sql : String) (now : Int) : DBStatement :=
  { DBStatement.new prepared.numParams prepared.fields sql with lastUseTime := now }

variable {db : Database}

/-! ## The erase loop -/

theorem eraseLoop_eq (vec : List Item) :
    ∀ (left i : Nat) (cache : StmtCache), i + left ≤ vec.length →
      eraseLoop vec left i cache = some (((vec.drop i).take left).foldl (fun cache item => cache.erase item.1) cache)
  | 0, _, _, _ => by simp [eraseLoop]
  | left + 1, i, cache, h => by
    have hlt : i < vec.length := by omega
    have ih := eraseLoop_eq vec left (i + 1) (cache.erase vec[i].1) (by omega)
    rw [eraseLoop, List.getElem?_eq_getElem hlt, List.drop_eq_getElem_cons hlt,
      List.take_succ_cons, List.foldl_cons]
    exact ih

theorem sort_length (db : Database) (order : LastUseSort) :
    (order.sort db.stmtCache.entries).length = db.cacheSize := by
  rw [Database.cacheSize, AList.keys, List.keys, List.length_map]
  exact (order.perm _).length_eq

/-- **The loop stays in the vector** of a full cache. -/
theorem eraseLoop_evict (order : LastUseSort) (hfull : db.maxStmtCache ≤ db.cacheSize) :
    eraseLoop (order.sort db.stmtCache.entries) (db.maxStmtCache >>> 1) 0 db.stmtCache =
      some (db.evict order).stmtCache := by
  have hhalf : db.maxStmtCache >>> 1 = db.maxStmtCache / 2 := Nat.shiftRight_eq_div_pow _ 1
  have hlength := sort_length db order
  rw [eraseLoop_eq _ _ 0 _ (by omega), List.drop_zero]
  rfl

theorem lookup_foldl_erase {sql : String} :
    ∀ (items : List Item) (cache : StmtCache), sql ∉ items.map (·.1) →
      (items.foldl (fun cache item => cache.erase item.1) cache).lookup sql = cache.lookup sql
  | [], _, _ => rfl
  | item :: items, cache, h => by
    rw [List.map_cons, List.mem_cons, not_or] at h
    rw [List.foldl_cons, lookup_foldl_erase items _ h.2, AList.lookup_erase_ne h.1]

theorem not_mem_foldl_erase {sql : String} :
    ∀ (items : List Item) (cache : StmtCache), sql ∈ items.map (·.1) →
      sql ∉ items.foldl (fun cache item => cache.erase item.1) cache
  | item :: items, cache, h, hmem => by
    rcases List.mem_cons.mp h with rfl | h
    · exact absurd rfl (AList.mem_erase.mp (foldl_erase_subset items _ _ hmem)).1
    · exact not_mem_foldl_erase items _ h hmem

theorem evict_cached {order : LastUseSort} {sql : String} :
    sql ∈ (db.evict order).stmtCache ↔
      sql ∈ db.stmtCache ∧
        sql ∉ ((order.sort db.stmtCache.entries).take (db.maxStmtCache >>> 1)).map (·.1) := by
  constructor
  · intro h
    exact ⟨foldl_erase_subset _ _ _ h, fun hin => not_mem_foldl_erase _ _ hin h⟩
  · rintro ⟨hmem, hnot⟩
    rw [← AList.lookup_isSome] at hmem ⊢
    rw [Database.evict, lookup_foldl_erase _ _ hnot]
    exact hmem

/-- What is kept was used last at the time of each evicted statement, or later. -/
theorem evict_oldest {order : LastUseSort} {gone kept : String} {old young : DBStatement}
    (hgone : old ∈ db.stmtCache.lookup gone) (hevicted : gone ∉ (db.evict order).stmtCache)
    (hkept : young ∈ db.stmtCache.lookup kept) (hcached : kept ∈ (db.evict order).stmtCache) :
    old.lastUseTime ≤ young.lastUseTime := by
  set vec := order.sort db.stmtCache.entries with hvec
  set half := db.maxStmtCache >>> 1
  have hmem : ∀ {sql : String} {dbStmt : DBStatement}, dbStmt ∈ db.stmtCache.lookup sql →
    (⟨sql, dbStmt⟩ : Item) ∈ vec :=
    fun h => (order.perm _).mem_iff.mpr (AList.mem_lookup_iff.mp h)
  -- the statements of one text are one statement, so the parts of the vector are told apart by the texts
  have hsame : ∀ {item : Item} {sql : String} {dbStmt : DBStatement}, dbStmt ∈ db.stmtCache.lookup sql →
      item ∈ vec → item.1 = sql → item = ⟨sql, dbStmt⟩ := by
    rintro ⟨text, other⟩ sql dbStmt h hitem heq
    cases (heq : text = sql)
    have hother : other ∈ db.stmtCache.lookup text := AList.mem_lookup_iff.mpr ((order.perm _).mem_iff.mp hitem)
    rw [Option.mem_unique h hother]
  have hfirst : (⟨gone, old⟩ : Item) ∈ vec.take half := by
    by_contra hnot
    refine hevicted (evict_cached.mpr ⟨AList.lookup_isSome.mp (Option.isSome_of_mem hgone), fun hin => ?_⟩)
    obtain ⟨item, hitem, heq⟩ := List.mem_map.mp hin
    rw [hsame hgone (List.mem_of_mem_take hitem) heq] at hitem
    exact hnot hitem
  have hsecond : (⟨kept, young⟩ : Item) ∈ vec.drop half := by
    have hin := hmem hkept
    rw [← List.take_append_drop half vec, List.mem_append] at hin
    refine hin.resolve_left fun htake => (evict_cached.mp hcached).2 ?_
    exact List.mem_map.mpr ⟨_, htake, rfl⟩
  have hsorted := order.sorted db.stmtCache.entries
  rw [← hvec, ← List.take_append_drop half vec, List.pairwise_append] at hsorted
  exact Int.not_lt.mp (hsorted.2.2 _ hfirst _ hsecond)

/-! ## One call -/

/-- What a call of `prepare` can do: clear a cached statement, fail, or add a new one. -/
theorem prepare_cases (db : Database) (sql : String) (answer : Option Prepared) (now : Int) (order : LastUseSort) :
    (∃ dbStmt ∈ db.stmtCache.lookup sql, db.prepare sql answer now order =
        ({ db with stmtCache := db.stmtCache.replace sql (reused dbStmt now) }, some (reused dbStmt now))) ∨
      (sql ∉ db.stmtCache ∧ answer = none ∧ db.prepare sql answer now order = (db, none)) ∨
      ∃ prepared room, sql ∉ db.stmtCache ∧ answer = some prepared ∧
        room = (if db.maxStmtCache ≤ db.cacheSize then db.evict order else db) ∧
        db.prepare sql answer now order =
          ({ room with stmtCache := room.stmtCache.insert sql (fresh prepared sql now) },
            some (fresh prepared sql now)) := by
  cases hlookup : db.stmtCache.lookup sql with
  | some dbStmt => exact .inl ⟨dbStmt, rfl, by simp only [Database.prepare, hlookup, reused]⟩
  | none =>
    have hnew : sql ∉ db.stmtCache := AList.lookup_eq_none.mp hlookup
    cases answer with
    | none => exact .inr (.inl ⟨hnew, rfl, by simp only [Database.prepare, hlookup]⟩)
    | some prepared =>
      refine .inr (.inr ⟨prepared, _, hnew, rfl, rfl, ?_⟩)
      simp only [Database.prepare, hlookup, ge_iff_le, fresh]

theorem unbound_reused (dbStmt : DBStatement) (now : Int) : Unbound (reused dbStmt now) :=
  ⟨rfl, fun _ h => List.eq_of_mem_replicate h⟩

theorem unbound_fresh (prepared : Prepared) (sql : String) (now : Int) : Unbound (fresh prepared sql now) :=
  ⟨rfl, fun _ h => List.eq_of_mem_replicate h⟩

/-- Replacing a statement leaves the other ones. -/
theorem dlookup_kreplace (sql key : String) (dbStmt : DBStatement) :
    ∀ items : List Item, sql ∈ items.keys →
      (items.kreplace sql dbStmt).dlookup key = if key = sql then some dbStmt else items.dlookup key
  | ⟨text, other⟩ :: items, h => by
    by_cases htext : sql = text
    · subst htext
      have hhead : (⟨sql, other⟩ :: items : List Item).kreplace sql dbStmt = ⟨sql, dbStmt⟩ :: items :=
        List.lookmap_cons_some _ _ (if_pos rfl)
      rw [hhead]
      split_ifs with hkey
      · rw [hkey, List.dlookup_cons_eq]
      · exact (List.dlookup_cons_ne _ _ hkey).trans (List.dlookup_cons_ne _ _ hkey).symm
    · have ih := dlookup_kreplace sql key dbStmt items (by simpa [htext] using h)
      have hhead : (⟨text, other⟩ :: items : List Item).kreplace sql dbStmt =
          ⟨text, other⟩ :: items.kreplace sql dbStmt :=
        List.lookmap_cons_none _ _ (if_neg htext)
      rw [hhead]
      by_cases hkey : key = text
      · subst hkey
        rw [List.dlookup_cons_eq, List.dlookup_cons_eq, if_neg (Ne.symm htext)]
      · rw [List.dlookup_cons_ne _ _ (show key ≠ _ from hkey), ih,
          List.dlookup_cons_ne _ _ (show key ≠ _ from hkey)]

theorem keys_of_lookup {cache : StmtCache} {sql : String} {dbStmt : DBStatement} (h : dbStmt ∈ cache.lookup sql) :
    sql ∈ cache.entries.keys :=
  AList.mem_keys.mp (AList.lookup_isSome.mp (Option.isSome_of_mem h))

/-- What a call of `prepare` returns is cached, under its text and without parameters. -/
theorem prepare_returned {sql : String} {answer : Option Prepared} {now : Int} {order : LastUseSort}
    {dbStmt : DBStatement} (h : Coherent db) (hr : (db.prepare sql answer now order).2 = some dbStmt) :
    (db.prepare sql answer now order).1.stmtCache.lookup sql = some dbStmt ∧ dbStmt.sql = sql ∧
      dbStmt.lastUseTime = now ∧ Unbound dbStmt := by
  rcases prepare_cases db sql answer now order with ⟨old, hold, heq⟩ | ⟨-, -, heq⟩ | ⟨prepared, room, -, -, -, heq⟩
  · rw [heq] at hr ⊢
    cases hr
    refine ⟨?_, h sql old hold, rfl, unbound_reused old now⟩
    rw [AList.lookup, AList.replace, dlookup_kreplace _ _ _ _ (keys_of_lookup hold), if_pos rfl]
  · rw [heq] at hr
    cases hr
  · rw [heq] at hr ⊢
    cases hr
    exact ⟨AList.lookup_insert _, rfl, rfl, unbound_fresh prepared sql now⟩

/-- A call that fails leaves the cache. -/
theorem prepare_failed {sql : String} {answer : Option Prepared} {now : Int} {order : LastUseSort}
    (hr : (db.prepare sql answer now order).2 = none) :
    sql ∉ db.stmtCache ∧ (db.prepare sql answer now order).1 = db := by
  rcases prepare_cases db sql answer now order with ⟨old, -, heq⟩ | ⟨hnew, -, heq⟩ | ⟨_, _, -, -, -, heq⟩
  · rw [heq] at hr
    cases hr
  · exact ⟨hnew, by rw [heq]⟩
  · rw [heq] at hr
    cases hr

/-- The statements under the other texts are kept as they are, or evicted. -/
theorem prepare_other {sql key : String} {answer : Option Prepared} {now : Int} {order : LastUseSort}
    (hne : key ≠ sql) (hkey : key ∈ (db.prepare sql answer now order).1.stmtCache) :
    (db.prepare sql answer now order).1.stmtCache.lookup key = db.stmtCache.lookup key := by
  rcases prepare_cases db sql answer now order with ⟨old, hold, heq⟩ | ⟨-, -, heq⟩ | ⟨prepared, room, -, -, hroom, heq⟩
  · rw [heq, AList.lookup, AList.replace, dlookup_kreplace _ _ _ _ (keys_of_lookup hold), if_neg hne]
    rfl
  · rw [heq]
  · rw [heq] at hkey ⊢
    rw [AList.mem_insert, or_iff_right hne] at hkey
    rw [AList.lookup_insert_ne hne, hroom]
    rw [hroom] at hkey
    split_ifs at hkey ⊢
    · exact lookup_foldl_erase _ _ (evict_cached.mp hkey).2
    · rfl

/-- **One call**: a statement in the cache was there before and not used, or it is the one that was returned. -/
theorem step_stamps {call : Call} {db' : Database} {r : Option DBStatement} (h : Coherent db)
    (hstep : step db call = some (db', r)) {key : String} {dbStmt : DBStatement}
    (hcached : dbStmt ∈ db'.stmtCache.lookup key) :
    (dbStmt ∈ db.stmtCache.lookup key ∧ ∀ t, call.use r ≠ some (key, t)) ∨
      (call.use r = some (key, dbStmt.lastUseTime) ∧ call.clock = [dbStmt.lastUseTime] ∧ dbStmt.sql = key) := by
  have hkey : key ∈ db'.stmtCache := AList.lookup_isSome.mp (Option.isSome_of_mem hcached)
  cases call with
  | prepare sql answer now order =>
    have hdb : (db.prepare sql answer now order).1 = db' := congrArg Prod.fst (Option.some.inj hstep)
    have hr : (db.prepare sql answer now order).2 = r := congrArg Prod.snd (Option.some.inj hstep)
    subst hdb
    by_cases hne : key = sql
    · subst hne
      cases r with
      | none =>
        obtain ⟨hnew, hsame⟩ := prepare_failed hr
        rw [hsame] at hkey
        exact absurd hkey hnew
      | some returned =>
        obtain ⟨hlookup, hsql, hnow, -⟩ := prepare_returned h hr
        cases Option.mem_unique hcached hlookup
        exact .inr ⟨by rw [hnow]; rfl, by rw [hnow]; rfl, hsql⟩
    · rw [prepare_other hne hkey] at hcached
      refine .inl ⟨hcached, fun t htime => hne ?_⟩
      cases r with
      | none => cases htime
      | some returned => exact (Prod.mk.inj (Option.some.inj htime)).1.symm
  | freeStatement sql =>
    obtain ⟨rfl, rfl⟩ := Prod.mk.inj (Option.some.inj hstep)
    have hne : key ≠ sql := (AList.mem_erase.mp hkey).1
    rw [Database.freeStatement, AList.lookup_erase_ne hne] at hcached
    exact .inl ⟨hcached, fun _ htime => by cases htime⟩
  | clearCache =>
    obtain ⟨rfl, rfl⟩ := Prod.mk.inj (Option.some.inj hstep)
    cases hcached

/-! ## Runs -/

theorem Steady.prefix {start : Database} {calls later : List Call} (h : Steady start (calls ++ later)) :
    Steady start calls := by
  obtain ⟨hordered, hsince⟩ := h
  rw [List.flatMap_append] at hordered hsince
  exact ⟨(List.pairwise_append.mp hordered).1,
    fun sql dbStmt hcached t ht => hsince sql dbStmt hcached t (List.mem_append_left _ ht)⟩

/-- Every use lies before the clock is read again. -/
theorem Used.le {start : Database} {calls : List Call} {results : List (Option DBStatement)}
    {call : Call} {sql : String}
    {t now : Int} (hclock : Steady start (calls ++ [call])) (hnow : now ∈ call.clock)
    (h : Used start calls results sql t) : t ≤ now := by
  obtain ⟨hordered, hsince⟩ := hclock
  rw [List.flatMap_append, List.flatMap_singleton] at hordered hsince
  rcases h with ⟨dbStmt, hcached, rfl⟩ | huse
  · exact hsince sql dbStmt hcached now (List.mem_append_right _ hnow)
  · obtain ⟨⟨done, r⟩, hmem, huse⟩ := List.mem_filterMap.mp huse
    refine (List.pairwise_append.mp hordered).2.2 t (List.mem_flatMap.mpr ⟨done,
      (List.of_mem_zip hmem).1, ?_⟩) now hnow
    match done, r, huse with
    | .prepare .., some _, rfl => exact List.mem_singleton.mpr rfl

/-- Every statement is cached under its own text, and was last used when it was stamped. -/
structure Recorded (start : Database) (calls : List Call) (results : List (Option DBStatement)) (db : Database) :
    Prop where
  results_length : results.length = calls.length
  coherent : Coherent db
  used : ∀ sql, ∀ dbStmt ∈ db.stmtCache.lookup sql, Used start calls results sql dbStmt.lastUseTime
  last : ∀ sql, ∀ dbStmt ∈ db.stmtCache.lookup sql, ∀ t, Used start calls results sql t → t ≤ dbStmt.lastUseTime

theorem recorded_start {start : Database} (h : Coherent start) : Recorded start [] [] start where
  results_length := rfl
  coherent := h
  used _ dbStmt hcached := .inl ⟨dbStmt, hcached, rfl⟩
  last sql dbStmt hcached t huse := by
    rcases huse with ⟨other, hother, rfl⟩ | huse
    · rw [Option.mem_unique hcached hother]
    · cases huse

/-- The uses of a run that goes on. -/
theorem used_append {start : Database} {calls : List Call} {results : List (Option DBStatement)} {call : Call}
    {r : Option DBStatement} {sql : String} {t : Int} (hlength : results.length = calls.length) :
    Used start (calls ++ [call]) (results ++ [r]) sql t ↔
      Used start calls results sql t ∨ call.use r = some (sql, t) := by
  rw [Used, Used, List.zip_append hlength.symm, List.filterMap_append, List.mem_append, or_assoc]
  simp

theorem recorded_step {start : Database} {calls : List Call} {results : List (Option DBStatement)} {call : Call}
    {db' : Database} {r : Option DBStatement} (h : Recorded start calls results db)
    (hclock : Steady start (calls ++ [call])) (hstep : step db call = some (db', r)) :
    Recorded start (calls ++ [call]) (results ++ [r]) db' where
  results_length := by simp [h.results_length]
  coherent key dbStmt hcached := by
    rcases step_stamps h.coherent hstep hcached with ⟨hbefore, -⟩ | ⟨-, -, hsql⟩
    · exact h.coherent key dbStmt hbefore
    · exact hsql
  used key dbStmt hcached := by
    rw [used_append h.results_length]
    rcases step_stamps h.coherent hstep hcached with ⟨hbefore, -⟩ | ⟨huse, -, -⟩
    · exact .inl (h.used key dbStmt hbefore)
    · exact .inr huse
  last key dbStmt hcached t huse := by
    rw [used_append h.results_length] at huse
    rcases step_stamps h.coherent hstep hcached with ⟨hbefore, hunused⟩ | ⟨hnow, htime, -⟩
    · exact h.last key dbStmt hbefore t (huse.resolve_right (hunused t))
    · rcases huse with huse | huse
      · exact huse.le hclock (by rw [htime]; exact List.mem_singleton.mpr rfl)
      · exact Int.le_of_eq (Prod.mk.inj (Option.some.inj (huse.symm.trans hnow))).2

/-- **Every run** under a clock that does not go back. -/
theorem recorded_of_run {start : Database} (h : Coherent start) {calls : List Call}
    {results : List (Option DBStatement)}
    (hclock : Steady start calls) (hrun : runOps step start calls = some (db, results)) :
    Recorded start calls results db :=
  runOps_inv (fun db calls results => Steady start calls → Recorded start calls results db)
    (fun _ _ _ _ _ _ hinv hstep hclock => recorded_step (hinv hclock.prefix) hclock hstep)
    (fun _ => recorded_start h) hrun hclock

/-! ## What is removed -/

theorem mem_removed {db db' : Database} {sql : String} :
    sql ∈ removed db db' ↔ sql ∈ db.stmtCache ∧ sql ∉ db'.stmtCache := by
  simp only [removed, Finset.mem_sdiff, List.mem_toFinset, ← AList.mem_keys]

theorem card_keys (db : Database) : db.stmtCache.keys.toFinset.card = db.cacheSize :=
  List.toFinset_card_of_nodup db.stmtCache.keys_nodup

/-- Half of the limit. -/
theorem card_removed_evict (order : LastUseSort) (hfull : db.maxStmtCache ≤ db.cacheSize) :
    (removed db (db.evict order)).card = db.maxStmtCache / 2 := by
  have hsub : (db.evict order).stmtCache.keys.toFinset ⊆ db.stmtCache.keys.toFinset := fun sql h => by
    rw [List.mem_toFinset, ← AList.mem_keys] at h ⊢
    exact (evict_cached.mp h).1
  have hsize := cacheSize_evict order hfull
  rw [removed, Finset.card_sdiff_of_subset hsub, card_keys, card_keys]
  omega

/-- A call that makes room removes what the loop erases. -/
theorem removed_of_makesRoom {sql : String} {answer : Option Prepared} {now : Int} {order : LastUseSort}
    (h : MakesRoom db sql answer) : removed db (db.prepare sql answer now order).1 =
      removed db (db.evict order) := by
  obtain ⟨hnew, hanswer, hfull⟩ := h
  ext key
  rw [mem_removed, mem_removed]
  refine and_congr_right fun hkey => not_congr ?_
  have hne : key ≠ sql := fun heq => hnew (heq ▸ hkey)
  rcases prepare_cases db sql answer now order with ⟨old, hold, -⟩ | ⟨-, rfl, -⟩ | ⟨prepared, room, -, -, hroom, heq⟩
  · exact absurd (AList.lookup_isSome.mp (Option.isSome_of_mem hold)) hnew
  · cases hanswer
  · rw [heq, AList.mem_insert, or_iff_right hne, hroom, if_pos hfull]

/-- Any other one removes nothing. -/
theorem removed_of_not_makesRoom {sql : String} {answer : Option Prepared} {now : Int} {order : LastUseSort}
    (h : ¬ MakesRoom db sql answer) : removed db (db.prepare sql answer now order).1 = ∅ := by
  rw [Finset.eq_empty_iff_forall_notMem]
  intro key hkey
  obtain ⟨hcached, hgone⟩ := mem_removed.mp hkey
  rcases prepare_cases db sql answer now order with ⟨old, -, heq⟩ | ⟨-, -, heq⟩ | ⟨prepared, room, hnew, hanswer, hroom, heq⟩
  · rw [heq, AList.mem_replace] at hgone
    exact hgone hcached
  · rw [heq] at hgone
    exact hgone hcached
  · have hspace : ¬ db.maxStmtCache ≤ db.cacheSize := fun hfull => h ⟨hnew, by rw [hanswer]; rfl, hfull⟩
    rw [heq, AList.mem_insert, hroom, if_neg hspace] at hgone
    exact hgone (.inr hcached)

/-- **The eviction.**  From any coherent cache, in any run of calls under a clock that does not go back: the next
call of `prepare`, if it makes room, removes half of the limit, rounded down, and each statement that is kept was
used at the time of any use of a removed one, or later; the loop stays in its vector.  If not, it removes nothing.
The other statements stay as they are, and what is returned is cached under its text, without parameters. -/
theorem least_recently_used {start db db' : Database} {calls : List Call} {results : List (Option DBStatement)}
    {sql : String} {answer : Option Prepared} {now : Int} {order : LastUseSort} {r : Option DBStatement}
    (hstart : Coherent start) (hclock : Steady start calls) (hrun : runOps step start calls = some (db, results))
    (hprepare : db.prepare sql answer now order = (db', r)) :
    (MakesRoom db sql answer →
      (removed db db').card = db.maxStmtCache / 2 ∧
        (∀ gone ∈ removed db db', ∀ kept ∈ db.stmtCache, kept ∈ db'.stmtCache →
          ∀ t, Used start calls results gone t → ∃ t', Used start calls results kept t' ∧ t ≤ t') ∧
        (eraseLoop (order.sort db.stmtCache.entries) (db.maxStmtCache >>> 1) 0 db.stmtCache).isSome) ∧
      (¬ MakesRoom db sql answer → removed db db' = ∅) ∧
      (∀ key, key ≠ sql → key ∈ db'.stmtCache → db'.stmtCache.lookup key = db.stmtCache.lookup key) ∧
      (∀ dbStmt, r = some dbStmt →
        db'.stmtCache.lookup sql = some dbStmt ∧ dbStmt.sql = sql ∧ Unbound dbStmt) := by
  have hrecorded := recorded_of_run hstart hclock hrun
  have hdb : (db.prepare sql answer now order).1 = db' := congrArg Prod.fst hprepare
  have hr : (db.prepare sql answer now order).2 = r := congrArg Prod.snd hprepare
  subst hdb
  refine ⟨fun hroom => ⟨?_, ?_, ?_⟩, removed_of_not_makesRoom, fun key => prepare_other, fun dbStmt hsome => ?_⟩
  · rw [removed_of_makesRoom hroom, card_removed_evict order hroom.2.2]
  · intro gone hgone kept hkept hcached t huse
    have hgone' := hgone
    rw [removed_of_makesRoom hroom, mem_removed] at hgone
    obtain ⟨old, hold⟩ := Option.isSome_iff_exists.mp (AList.lookup_isSome.mpr hgone.1)
    obtain ⟨young, hyoung⟩ := Option.isSome_iff_exists.mp (AList.lookup_isSome.mpr hkept)
    have hstay : kept ∈ (db.evict order).stmtCache := by
      by_contra hnot
      have hremoved : kept ∈ removed db (db.prepare sql answer now order).1 := by
        rw [removed_of_makesRoom hroom]
        exact mem_removed.mpr ⟨hkept, hnot⟩
      exact (mem_removed.mp hremoved).2 hcached
    refine ⟨young.lastUseTime, hrecorded.used kept young hyoung, ?_⟩
    exact Int.le_trans (hrecorded.last gone old hold t huse) (evict_oldest hold hgone.2 hyoung hstay)
  · rw [eraseLoop_evict order hroom.2.2]
    rfl
  · obtain ⟨hcached, hsql, -, hunbound⟩ := prepare_returned hrecorded.coherent (hr.trans hsome)
    exact ⟨hcached, hsql, hunbound⟩

/-- The third statement under a limit of two takes the place of one, the one that was not used again. -/
theorem least_recently_used_two :
    ∃ db results, runOps step (.new 2)
        [.prepare "SELECT 1" (some ⟨0, [.LONG]⟩) 1 insertionOrder, .prepare "SELECT 2" (some ⟨0, [.LONG]⟩) 2 insertionOrder,
          .prepare "SELECT 1" none 3 insertionOrder] = some (db, results) ∧
      (removed db (db.prepare "SELECT 3" (some ⟨0, [.LONG]⟩) 4 insertionOrder).1).card = 1 ∧
      (db.prepare "SELECT 3" (some ⟨0, [.LONG]⟩) 4 insertionOrder).1.stmtCache.keys = ["SELECT 3", "SELECT 1"] := by
  refine ⟨_, _, rfl, ?_, by decide⟩
  have hempty : Coherent (.new 2) := fun _ _ h => by cases h
  have hclock : Steady (.new 2)
      [.prepare "SELECT 1" (some ⟨0, [.LONG]⟩) 1 insertionOrder, .prepare "SELECT 2" (some ⟨0, [.LONG]⟩) 2 insertionOrder,
        .prepare "SELECT 1" none 3 insertionOrder] := ⟨by decide, fun _ _ h => by cases h⟩
  have hevicts := least_recently_used hempty hclock rfl
    (show Database.prepare _ "SELECT 3" (some ⟨0, [.LONG]⟩) 4 insertionOrder = (_, _) from rfl)
  exact (hevicts.1 ⟨by decide, rfl, by decide⟩).1

/-- While there is room, a statement that is not cached removes no other. -/
theorem miss_without_room_to_make :
    ¬ ∀ (maxStmtCache : Nat) (calls : List Call) (db : Database)
      (results : List (Option DBStatement)) (sql : String)
      (prepared : Prepared) (now : Int) (order : LastUseSort),
      Steady (.new maxStmtCache) (calls ++ [.prepare sql (some prepared) now order]) →
      runOps step (.new maxStmtCache) calls = some (db, results) → sql ∉ db.stmtCache →
      (removed db (db.prepare sql (some prepared) now order).1).card = maxStmtCache / 2 := by
  intro hall
  have hone := hall 2 [] _ _ "SELECT 1" ⟨0, [.LONG]⟩ 1 insertionOrder ⟨by decide,
    fun _ _ h => by cases h⟩ rfl (by decide)
  exact absurd hone (by decide)

end Libws.PreparedStatements
