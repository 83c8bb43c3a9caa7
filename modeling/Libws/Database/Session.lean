import Libws.Database.Query
import Libws.Database.StmtCache
import Libws.Lib.Handles

/-!
# The handles of `ws::database::Database`

Model of what `Database` of `wsDatabase/src/Database.cpp` and `database/Database.h` does with the handles of the
client library: its connection, the statement of each `DBStatement` and the result of each `Recordset`.

* `cache` and `records` are the models of the statement cache and of the queries; here a cached statement and a
  record set get the number of their handle.
* What the library answers comes with the calls; `mysql_stmt_init` succeeds.  To pass it a null connection has no
  defined outcome, and neither has a statement that is not cached any more.
* The callers of `getLastRecord` have the record sets in `taken`, and use and destroy them.

`handles_orderly` — **in every run** each handle is freed once, and used only before that; the statements are closed
before their connection; and the destructor leaves nothing but the record sets that callers have.
-/

set_option autoImplicit false

namespace Libws.Sessions

open Libws.Handles Libws.Machine Libws.PreparedStatements
open Libws.Responses (Response Reply)

inductive Handle where
  | MYSQL (id : Nat)
  | MYSQL_STMT (id : Nat)
  | MYSQL_RES (id : Nat)
  deriving DecidableEq, Repr

/-- A statement is closed before its connection. -/
def needs : Handle → Handle → Bool
  | .MYSQL_STMT _, .MYSQL _ => true
  | _, _ => false

structure Database where
  cache : PreparedStatements.Database
  records : Responses.Database
  mysql : Option Nat
  /-- history: the handles of the cached statements -/
  stmt : String → Nat
  /-- history: the handle of `lastRecords` -/
  lastRecords : Option Nat
  /-- history: the handles of the record sets that callers have -/
  taken : List Nat
  /-- history: the handles made so far -/
  mysqls : Nat
  stmts : Nat
  results : Nat
  destroyed : Bool

namespace Database

variable (db : Database)

/-- The constructor, and `setDBConfig`. -/
def new (maxStmtCache : Nat) : Database :=
  { cache := .new maxStmtCache, records := .new, mysql := none, stmt := fun _ => 0, lastRecords := none, taken := []
    mysqls := 0, stmts := 0, results := 0, destroyed := false }

/-- The statements of some texts. -/
def statements (texts : List String) : List Handle := texts.map fun sql => .MYSQL_STMT (db.stmt sql)

def closeAll : List (Event Handle) := (db.statements db.cache.stmtCache.keys).map .freed

def logoff : Database × List (Event Handle) :=
  match db.mysql with
  | none => (db, [])
  | some mysql =>
    ({ db with cache := db.cache.clearCache, mysql := none, records := { db.records with nextResults := [] } },
      db.closeAll ++ [.freed (.MYSQL mysql)])

/-- `logon`; `init` and `connect` tell whether `mysql_init` and `mysql_real_connect` succeed. -/
def logon (init connect : Bool) : Database × List (Event Handle) :=
  let (db, events) := db.logoff
  if !init then (db, events)
  else
    let mysql := Handle.MYSQL db.mysqls
    ({ db with mysql := some db.mysqls, mysqls := db.mysqls + 1 },
      events ++ [.made mysql, .used mysql] ++
        -- the character set and `autoCommit`, or the error
        (if connect then [.used mysql, .used mysql] else [.used mysql]))

/-- A call that only uses the connection, if there is one: `isConnected`, `changeDatabase` and `getInsertId`. -/
def useMysql : List (Event Handle) := db.mysql.toList.map fun mysql => .used (.MYSQL mysql)

/-- `prepare`; the answer of the server is none on an error. -/
def prepare (sql : String) (answer : Option Prepared) (now : Int) (order : LastUseSort) :
    Option (Database × List (Event Handle)) :=
  let (cache, _) := db.cache.prepare sql answer now order
  if sql ∈ db.cache.stmtCache then some ({ db with cache := cache }, [])
  else
    match db.mysql with
    | none => none
    | some mysql =>
      let stmt := Handle.MYSQL_STMT db.stmts
      let begun := [Event.used (.MYSQL mysql), .made stmt, .used stmt]
      match answer with
      | none => some ({ db with cache := cache, stmts := db.stmts + 1 }, begun ++ [.used stmt, .freed stmt])
      | some prepared =>
        let evicted := db.statements
          ((order.sort db.cache.stmtCache.entries).map (·.1) |>.filter fun text => text ∉ cache.stmtCache.keys)
        -- the constructor of `DBStatement` looks at the columns
        let metadata := if prepared.fields = [] then []
          else [.made (.MYSQL_RES db.results), .used (.MYSQL_RES db.results), .used stmt,
            .freed (.MYSQL_RES db.results)]
        some ({ db with
            cache := cache
            stmt := Function.update db.stmt sql db.stmts
            stmts := db.stmts + 1
            results := if prepared.fields = [] then db.results else db.results + 1 },
          begun ++ evicted.map .freed ++ [.used stmt] ++ metadata)

def freeStatement (sql : String) : Database × List (Event Handle) :=
  ({ db with cache := db.cache.freeStatement sql },
    if sql ∈ db.cache.stmtCache then [.freed (.MYSQL_STMT (db.stmt sql))] else [])

def clearCache : Database × List (Event Handle) := ({ db with cache := db.cache.clearCache }, db.closeAll)

/-- A result that the loop of `query` ignores. -/
def ignore : Response → Database × List (Event Handle)
  | .resultSet _ =>
    ({ db with results := db.results + 1 }, [.made (.MYSQL_RES db.results), .freed (.MYSQL_RES db.results)])
  | .storeFailed | .affected _ => (db, [])

/-- The loop of `query` over the other results of the last one. -/
def ignoreResults (mysql : Nat) (db : Database) : List Response → Database × List (Event Handle)
  | [] => (db, [.used (.MYSQL mysql)])
  | response :: rest =>
    let (next, ignored) := db.ignore response
    let (last, events) := ignoreResults mysql next rest
    (last, .used (.MYSQL mysql) :: ignored ++ events)

/-- The record set that `lastRecords` had is destroyed. -/
def dropRecords : List (Event Handle) := db.lastRecords.toList.map fun result => .freed (.MYSQL_RES result)

/-- What `query` and `nextRecordset` do on a response. -/
def store : Response → Database × List (Event Handle)
  | .resultSet rows =>
    let result := Handle.MYSQL_RES db.results
    if rows = [] then ({ db with results := db.results + 1 }, [.made result, .used result, .freed result])
    else
      -- the number of the rows, and that of the fields for the new record set
      ({ db with lastRecords := some db.results, results := db.results + 1 },
        [.made result, .used result, .used result] ++ db.dropRecords)
  | .storeFailed => (db, [])
  | .affected _ => ({ db with lastRecords := none }, db.dropRecords)

def query (strSQL : String) (reply : Reply) : Option (Database × List (Event Handle)) :=
  match db.mysql with
  | none => none
  | some mysql =>
    let (ignoring, ignored) := ignoreResults mysql db db.records.nextResults
    let answered := { ignoring with records := (db.records.query strSQL reply).1 }
    match reply with
    | .ok first _ =>
      let (stored, events) := answered.store first
      some (stored, ignored ++ [.used (.MYSQL mysql)] ++ events)
    | .error =>
      some ({ answered with lastRecords := none }, ignored ++ [.used (.MYSQL mysql)] ++ answered.dropRecords)

def nextRecordset : Option (Database × List (Event Handle)) :=
  match db.mysql with
  | none => none
  | some mysql =>
    let next := { db with records := db.records.nextRecordset.1 }
    match db.records.nextResults with
    | [] => some (next, [.used (.MYSQL mysql)])
    | response :: _ =>
      let (stored, events) := next.store response
      some (stored, .used (.MYSQL mysql) :: events)

/-- `getLastRecord` gives the record set to the caller. -/
def getLastRecord : Database :=
  { db with records := db.records.getLastRecord.1, taken := db.lastRecords.toList ++ db.taken, lastRecords := none }

/-- `~Database`, and the destructors of its members. -/
def destroy : Database × List (Event Handle) :=
  let (off, events) := db.logoff
  ({ off with
      cache := off.cache.clearCache
      records := { off.records with lastRecords := none }
      lastRecords := none
      destroyed := true },
    events ++ off.closeAll ++ off.dropRecords)

end Database

inductive Call where
  | logon (init connect : Bool)
  | logoff
  /-- `isConnected`, `changeDatabase` or `getInsertId` -/
  | useMysql
  /-- `commit` or `rollback` -/
  | endTransaction
  | prepare (sql : String) (answer : Option Prepared) (now : Int) (order : LastUseSort)
  /-- a call of a cached statement, such as `execute` -/
  | useStatement (sql : String)
  | freeStatement (sql : String)
  | clearCache
  | query (strSQL : String) (reply : Reply)
  | nextRecordset
  | getLastRecord
  /-- a call of a record set that a caller has, and its destructor -/
  | useRecords (result : Nat)
  | destroyRecords (result : Nat)
  | destroy

def step (db : Database) (call : Call) : Option (Database × List (Event Handle)) :=
  match call with
  | .useRecords result => if result ∈ db.taken then some (db, [.used (.MYSQL_RES result)]) else none
  | .destroyRecords result =>
    if result ∈ db.taken then some ({ db with taken := db.taken.erase result }, [.freed (.MYSQL_RES result)]) else none
  | .logon init connect => if db.destroyed then none else some (db.logon init connect)
  | .logoff => if db.destroyed then none else some db.logoff
  | .useMysql => if db.destroyed then none else some (db, db.useMysql)
  | .endTransaction => if db.destroyed ∨ db.mysql = none then none else some (db, db.useMysql)
  | .prepare sql answer now order => if db.destroyed then none else db.prepare sql answer now order
  | .useStatement sql =>
    if db.destroyed ∨ sql ∉ db.cache.stmtCache then none
    else some (db, .used (.MYSQL_STMT (db.stmt sql)) :: db.useMysql)
  | .freeStatement sql => if db.destroyed then none else some (db.freeStatement sql)
  | .clearCache => if db.destroyed then none else some db.clearCache
  | .query strSQL reply => if db.destroyed then none else db.query strSQL reply
  | .nextRecordset => if db.destroyed then none else db.nextRecordset
  | .getLastRecord => if db.destroyed then none else some (db.getLastRecord, [])
  | .destroy => if db.destroyed then none else some db.destroy

/-! ## What a database has -/

namespace Database

variable (db : Database)

def heldWith (texts : List String) : List Handle :=
  db.mysql.toList.map .MYSQL ++ db.statements texts ++ db.lastRecords.toList.map .MYSQL_RES ++
    db.taken.map .MYSQL_RES

/-- The handles that are in the hands of the database and of its callers. -/
def held : List Handle := db.heldWith db.cache.stmtCache.keys

def Old : Handle → Prop
  | .MYSQL id => id < db.mysqls
  | .MYSQL_STMT id => id < db.stmts
  | .MYSQL_RES id => id < db.results

end Database

structure Inv (db : Database) (trace : List (Event Handle)) : Prop where
  accounts : Accounts needs db.Old db.held trace
  connected : db.mysql = none → db.cache.stmtCache.keys = []
  destroyed : db.destroyed = true → db.mysql = none ∧ db.lastRecords = none

variable {db : Database} {trace : List (Event Handle)}

/-- Nobody needs a statement or a result. -/
theorem needs_statement (g : Handle) (id : Nat) : needs g (.MYSQL_STMT id) = false := by cases g <;> rfl

theorem needs_result (g : Handle) (id : Nat) : needs g (.MYSQL_RES id) = false := by cases g <;> rfl

theorem statements_needs (texts : List String) : ∀ handle ∈ db.statements texts, ∀ g, needs g handle = false := by
  intro handle hhandle g
  obtain ⟨sql, -, rfl⟩ := List.mem_map.mp hhandle
  exact needs_statement g _

/-- The statements are closed, and then the connection. -/
theorem logoff_accounts (h : Inv db trace) :
    Accounts needs db.Old (db.lastRecords.toList.map .MYSQL_RES ++ db.taken.map .MYSQL_RES)
      (trace ++ db.logoff.2) := by
  have haccounts := h.accounts
  unfold Database.logoff
  cases hmysql : db.mysql with
  | none =>
    have hkeys := h.connected hmysql
    simp only [Database.held, Database.heldWith, hmysql, hkeys, Database.statements] at haccounts
    simpa using haccounts
  | some mysql =>
    have hperm : db.held.Perm (db.statements db.cache.stmtCache.keys ++ (.MYSQL mysql ::
        (db.lastRecords.toList.map .MYSQL_RES ++ db.taken.map .MYSQL_RES))) := by
      rw [Database.held, Database.heldWith, hmysql]
      simp only [Option.toList_some, List.map_cons, List.map_nil, List.nil_append, List.append_assoc,
        List.cons_append]
      exact List.perm_middle.symm
    have hclosed := (haccounts.perm hperm fun _ hold => hold).freedAll _ (statements_needs _)
    rw [← List.append_assoc]
    apply hclosed.freed
    intro g hg
    cases g with
    | MYSQL id => rfl
    | MYSQL_RES id => rfl
    | MYSQL_STMT id => simp at hg

theorem logoff_cases (db : Database) : db.logoff.1.mysql = none ∧ db.logoff.1.lastRecords = db.lastRecords ∧
    db.logoff.1.taken = db.taken ∧ db.logoff.1.Old = db.Old ∧ db.logoff.1.destroyed = db.destroyed ∧
    (db.mysql = none ∧ db.logoff.1.cache = db.cache ∨ db.logoff.1.cache.stmtCache.keys = []) := by
  unfold Database.logoff
  cases hmysql : db.mysql with
  | none => exact ⟨hmysql, rfl, rfl, rfl, rfl, .inl ⟨rfl, rfl⟩⟩
  | some mysql => exact ⟨rfl, rfl, rfl, rfl, rfl, .inr rfl⟩

theorem logoff_keys (h : Inv db trace) : db.logoff.1.cache.stmtCache.keys = [] := by
  rcases (logoff_cases db).2.2.2.2.2 with ⟨hmysql, hcache⟩ | hkeys
  · rw [hcache]
    exact h.connected hmysql
  · exact hkeys

theorem logoff_inv (h : Inv db trace) : Inv db.logoff.1 (trace ++ db.logoff.2) := by
  obtain ⟨hmysql, hlast, htaken, hold, hdestroyed, -⟩ := logoff_cases db
  have hkeys := logoff_keys h
  refine ⟨?_, fun _ => hkeys, ?_⟩
  · rw [Database.held, Database.heldWith, hmysql, hkeys, hlast, htaken, hold]
    simpa [Database.statements] using logoff_accounts h
  · intro hgone
    rw [hdestroyed] at hgone
    rw [hmysql, hlast]
    exact ⟨rfl, (h.destroyed hgone).2⟩

theorem logon_inv (h : Inv db trace) (hlive : db.destroyed = false) (init connect : Bool) :
    Inv (db.logon init connect).1 (trace ++ (db.logon init connect).2) := by
  have hoff := logoff_inv h
  obtain ⟨hmysql, -, -, -, hdestroyed, -⟩ := logoff_cases db
  unfold Database.logon
  rcases hlogoff : db.logoff with ⟨off, events⟩
  rw [hlogoff] at hoff hmysql hdestroyed
  dsimp only at hoff hmysql hdestroyed ⊢
  cases init with
  | false => exact hoff
  | true =>
    have hnew : ¬ off.Old (.MYSQL off.mysqls) := Nat.lt_irrefl off.mysqls
    have hgrow : ∀ handle, off.Old handle →
        Database.Old { off with mysql := some off.mysqls, mysqls := off.mysqls + 1 } handle := by
      intro handle hold
      cases handle with
      | MYSQL id => exact Nat.lt_succ_of_lt hold
      | MYSQL_STMT id => exact hold
      | MYSQL_RES id => exact hold
    have hmade := hoff.accounts.made hnew hgrow (Nat.lt_succ_self off.mysqls)
    have hheld : Database.held { off with mysql := some off.mysqls, mysqls := off.mysqls + 1 } =
        .MYSQL off.mysqls :: off.held := by
      simp [Database.held, Database.heldWith, hmysql, Database.statements]
    rw [← hheld] at hmade
    have hmem : Handle.MYSQL off.mysqls ∈
        Database.held { off with mysql := some off.mysqls, mysqls := off.mysqls + 1 } := by simp [hheld]
    refine ⟨?_, ?_, ?_⟩
    · cases connect with
      | true => simpa using ((hmade.used hmem).used hmem).used hmem
      | false => simpa using (hmade.used hmem).used hmem
    · intro hnone
      cases hnone
    · intro hgone
      rw [hlive] at hdestroyed
      exact absurd (hdestroyed.symm.trans hgone) (by decide)

/-- The connection is used, if there is one. -/
theorem useMysql_accounts (h : Inv db trace) : Accounts needs db.Old db.held (trace ++ db.useMysql) := by
  unfold Database.useMysql
  cases hmysql : db.mysql with
  | none => simpa using h.accounts
  | some mysql =>
    apply h.accounts.used
    simp [Database.held, Database.heldWith, hmysql]

/-- A cached statement is in the hands of the database. -/
theorem statement_mem {sql : String} (h : sql ∈ db.cache.stmtCache) :
    Handle.MYSQL_STMT (db.stmt sql) ∈ db.held := by
  have hmem : Handle.MYSQL_STMT (db.stmt sql) ∈ db.statements db.cache.stmtCache.keys :=
    List.mem_map.mpr ⟨sql, AList.mem_keys.mp h, rfl⟩
  simp [Database.held, Database.heldWith, hmem]

theorem held_perm (db : Database) {closed kept : List String}
    (hperm : db.cache.stmtCache.keys.Perm (closed ++ kept)) :
    db.held.Perm (db.statements closed ++ db.heldWith kept) := by
  have hstatements : (db.statements db.cache.stmtCache.keys).Perm (db.statements closed ++ db.statements kept) := by
    rw [Database.statements, Database.statements, Database.statements, ← List.map_append]
    exact hperm.map _
  have hmoved := (hstatements.append_right (db.lastRecords.toList.map .MYSQL_RES ++ db.taken.map .MYSQL_RES)).append_left
    (db.mysql.toList.map .MYSQL)
  rw [List.append_assoc] at hmoved
  rw [Database.held, Database.heldWith, Database.heldWith]
  simp only [List.append_assoc]
  exact hmoved.trans (List.perm_append_comm_assoc ..)

/-- Some statements are closed; the others stay. -/
theorem close_accounts (h : Accounts needs db.Old db.held trace) {closed kept : List String}
    (hperm : db.cache.stmtCache.keys.Perm (closed ++ kept)) :
    Accounts needs db.Old (db.heldWith kept) (trace ++ (db.statements closed).map .freed) :=
  (h.perm (held_perm db hperm) fun _ hold => hold).freedAll _ (statements_needs closed)

theorem clearCache_inv (h : Inv db trace) : Inv db.clearCache.1 (trace ++ db.clearCache.2) := by
  have hclosed := close_accounts h.accounts (.of_eq (List.append_nil db.cache.stmtCache.keys).symm)
  exact ⟨hclosed, fun _ => rfl, h.destroyed⟩

theorem freeStatement_inv (h : Inv db trace) (sql : String) :
    Inv (db.freeStatement sql).1 (trace ++ (db.freeStatement sql).2) := by
  have hkeys : (db.freeStatement sql).1.cache.stmtCache.keys = db.cache.stmtCache.keys.erase sql :=
    AList.keys_erase ..
  refine ⟨?_, ?_, h.destroyed⟩
  · rw [Database.held, hkeys]
    unfold Database.freeStatement
    dsimp only
    by_cases hmem : sql ∈ db.cache.stmtCache
    · rw [if_pos hmem]
      have hperm : db.cache.stmtCache.keys.Perm ([sql] ++ db.cache.stmtCache.keys.erase sql) :=
        List.perm_cons_erase (AList.mem_keys.mp hmem)
      exact close_accounts h.accounts hperm
    · rw [if_neg hmem, List.append_nil, List.erase_of_not_mem hmem]
      exact h.accounts
  · intro hnone
    rw [hkeys, h.connected hnone]
    rfl

/-! ## Preparing -/

/-- A miss that succeeds: what is kept in the cache, and what is not. -/
theorem prepare_keys {cache : PreparedStatements.Database} {sql : String} (prepared : Prepared) (now : Int)
    (order : LastUseSort) (hmiss : sql ∉ cache.stmtCache) :
    ∃ kept, (cache.prepare sql (some prepared) now order).1.stmtCache.keys = sql :: kept ∧ sql ∉ kept ∧
      cache.stmtCache.keys.Perm
        (((order.sort cache.stmtCache.entries).map (·.1)).filter
            (fun text => text ∉ (cache.prepare sql (some prepared) now order).1.stmtCache.keys) ++ kept) := by
  have hnone := AList.lookup_eq_none.mpr hmiss
  generalize hroom : (if cache.cacheSize ≥ cache.maxStmtCache then cache.evict order else cache) = room
  have hsubset : room.stmtCache.keys ⊆ cache.stmtCache.keys := by
    rw [← hroom]
    split
    · exact foldl_erase_subset _ _
    · exact fun _ hmem => hmem
  have hnot : sql ∉ room.stmtCache.keys := fun hmem => hmiss (AList.mem_keys.mpr (hsubset hmem))
  have hkeys : (cache.prepare sql (some prepared) now order).1.stmtCache.keys = sql :: room.stmtCache.keys := by
    unfold PreparedStatements.Database.prepare
    rw [hnone]
    dsimp only
    rw [hroom, AList.keys_insert, List.erase_of_not_mem hnot]
  refine ⟨room.stmtCache.keys, hkeys, hnot, ?_⟩
  rw [hkeys]
  have hsort : ((order.sort cache.stmtCache.entries).map (·.1)).Perm cache.stmtCache.keys :=
    (order.perm cache.stmtCache.entries).map (·.1)
  refine List.Perm.trans ?_ ((hsort.filter _).append_right _).symm
  have hnodup : (cache.stmtCache.keys.filter (fun text => text ∉ sql :: room.stmtCache.keys) ++
      room.stmtCache.keys).Nodup := by
    refine List.nodup_append.mpr ⟨cache.stmtCache.keys_nodup.filter _, room.stmtCache.keys_nodup, ?_⟩
    intro text htext other hother heq
    rw [List.mem_filter] at htext
    subst heq
    simp [hother] at htext
  refine (List.perm_ext_iff_of_nodup cache.stmtCache.keys_nodup hnodup).mpr ?_
  intro text
  by_cases hkept : text ∈ room.stmtCache.keys
  · simp [hkept, hsubset hkept]
  · have hne : text ∈ cache.stmtCache.keys → text ≠ sql := by
      rintro hmem rfl
      exact hmiss (AList.mem_keys.mpr hmem)
    simp only [List.mem_append, List.mem_filter, List.mem_cons, hkept, or_false]
    constructor
    · intro hmem
      exact ⟨hmem, by simp [hne hmem]⟩
    · exact fun hmem => hmem.1

/-- Every other statement keeps its handle. -/
theorem statements_update (db : Database) {kept : List String} {sql : String} (hsql : sql ∉ kept) (id : Nat) :
    Database.statements { db with stmt := Function.update db.stmt sql id } kept = db.statements kept := by
  refine List.map_congr_left fun text htext => ?_
  have hne : text ≠ sql := by
    rintro rfl
    exact hsql htext
  exact congrArg Handle.MYSQL_STMT (Function.update_of_ne hne id db.stmt)

/-- A hit, or an error, leaves the texts in the cache as they are. -/
theorem prepare_same {cache : PreparedStatements.Database} {sql : String} {answer : Option Prepared} (now : Int)
    (order : LastUseSort) (h : sql ∈ cache.stmtCache ∨ answer = none) :
    (cache.prepare sql answer now order).1.stmtCache.keys = cache.stmtCache.keys := by
  unfold PreparedStatements.Database.prepare
  cases hlookup : cache.stmtCache.lookup sql with
  | some dbStmt => exact AList.keys_replace ..
  | none =>
    rcases h with hmem | rfl
    · exact absurd hmem (AList.lookup_eq_none.mp hlookup)
    · rfl

/-- A new statement is made, in the hands of nobody so far. -/
theorem made_statement {mysql : Nat} (h : Accounts needs db.Old db.held trace) (hmysql : db.mysql = some mysql) :
    Accounts needs (Database.Old { db with stmts := db.stmts + 1 }) (.MYSQL_STMT db.stmts :: db.held)
      (trace ++ [.used (.MYSQL mysql), .made (.MYSQL_STMT db.stmts), .used (.MYSQL_STMT db.stmts)]) := by
  have hnew : ¬ db.Old (.MYSQL_STMT db.stmts) := Nat.lt_irrefl db.stmts
  have hgrow : ∀ handle, db.Old handle → Database.Old { db with stmts := db.stmts + 1 } handle := by
    intro handle hold
    cases handle with
    | MYSQL id => exact hold
    | MYSQL_STMT id => exact Nat.lt_succ_of_lt hold
    | MYSQL_RES id => exact hold
  have hused : Handle.MYSQL mysql ∈ db.held := by simp [Database.held, Database.heldWith, hmysql]
  have hmade := (h.used hused).made hnew hgrow (Nat.lt_succ_self db.stmts)
  simpa using hmade.used (List.mem_cons_self ..)

/-- A result is made and freed again, and used in between. -/
theorem passing_result (db : Database) {held : List Handle} (h : Accounts needs db.Old held trace)
    (others : List Handle) (hothers : ∀ handle ∈ others, handle ∈ held ∨ handle = .MYSQL_RES db.results) :
    Accounts needs (Database.Old { db with results := db.results + 1 }) held
      (trace ++ [.made (.MYSQL_RES db.results)] ++ others.map .used ++ [.freed (.MYSQL_RES db.results)]) := by
  have hnew : ¬ db.Old (.MYSQL_RES db.results) := Nat.lt_irrefl db.results
  have hgrow : ∀ handle, db.Old handle → Database.Old { db with results := db.results + 1 } handle := by
    intro handle hold
    cases handle with
    | MYSQL id => exact hold
    | MYSQL_STMT id => exact hold
    | MYSQL_RES id => exact Nat.lt_succ_of_lt hold
  have hmade := h.made hnew hgrow (Nat.lt_succ_self db.results)
  have hused := hmade.usedAll others ?_
  · exact hused.freed fun g _ => needs_result g db.results
  · intro handle hhandle
    rcases hothers handle hhandle with hmem | rfl
    · exact List.mem_cons_of_mem _ hmem
    · exact List.mem_cons_self ..

theorem prepare_inv {db' : Database} {events : List (Event Handle)} (h : Inv db trace) {sql : String}
    {answer : Option Prepared} {now : Int} {order : LastUseSort}
    (hstep : db.prepare sql answer now order = some (db', events)) : Inv db' (trace ++ events) := by
  unfold Database.prepare at hstep
  dsimp only at hstep
  by_cases hmem : sql ∈ db.cache.stmtCache
  · rw [if_pos hmem] at hstep
    cases hstep
    have hkeys := (prepare_same now order (.inl hmem) : (db.cache.prepare sql answer now order).1.stmtCache.keys = _)
    refine ⟨?_, ?_, h.destroyed⟩
    · rw [List.append_nil, Database.held, hkeys]
      exact h.accounts
    · intro hnone
      exact hkeys.trans (h.connected hnone)
  · rw [if_neg hmem] at hstep
    split at hstep
    next => cases hstep
    next mysql hmysql =>
      have hmade := made_statement h.accounts hmysql
      cases answer with
      | none =>
        cases hstep
        have hkeys : (db.cache.prepare sql none now order).1.stmtCache.keys = db.cache.stmtCache.keys :=
          prepare_same now order (.inr rfl)
        refine ⟨?_, ?_, h.destroyed⟩
        · rw [Database.held, hkeys]
          have hfreed := (hmade.used (List.mem_cons_self ..)).freed fun g _ => needs_statement g db.stmts
          rw [List.append_assoc, List.append_assoc] at hfreed
          exact hfreed
        · intro hnone
          cases hmysql.symm.trans hnone
      | some prepared =>
        obtain ⟨kept, hkeys, hnot, hperm⟩ := prepare_keys prepared now order hmem
        have hpair := Option.some.inj hstep
        have hdb := congrArg Prod.fst hpair
        have hevents := congrArg Prod.snd hpair
        dsimp only at hdb hevents
        have hheld : (Handle.MYSQL_STMT db.stmts :: db.heldWith kept).Perm db'.held := by
          have hkept := statements_update db hnot db.stmts
          have hself : Function.update db.stmt sql db.stmts sql = db.stmts := Function.update_self ..
          rw [← hdb, Database.held, hkeys, Database.heldWith, Database.heldWith]
          simp only [Database.statements, List.map_cons, hself] at hkept ⊢
          rw [hkept, List.append_assoc, List.append_assoc, List.append_assoc, List.append_assoc]
          exact List.perm_middle.symm
        have hclosed : Accounts needs (Database.Old { db with stmts := db.stmts + 1 })
          (.MYSQL_STMT db.stmts :: db.heldWith kept)
            (trace ++ [.used (.MYSQL mysql), .made (.MYSQL_STMT db.stmts), .used (.MYSQL_STMT db.stmts)] ++
              (db.statements (((order.sort db.cache.stmtCache.entries).map (·.1)).filter fun text =>
                text ∉ (db.cache.prepare sql (some prepared) now order).1.stmtCache.keys)).map .freed) := by
          refine (hmade.perm ?_ fun _ hold => hold).freedAll _ (statements_needs _)
          exact ((held_perm db hperm).cons _).trans List.perm_middle.symm
        have hused := hclosed.used (List.mem_cons_self ..)
        refine ⟨?_, ?_, ?_⟩
        · rw [← hevents]
          by_cases hfields : prepared.fields = []
          · rw [if_pos hfields]
            have hold : ∀ handle, Database.Old { db with stmts := db.stmts + 1 } handle → db'.Old handle := by
              rw [← hdb, if_pos hfields]
              exact fun _ hold => hold
            simpa [List.append_assoc] using hused.perm hheld hold
          · rw [if_neg hfields]
            have hpassed := passing_result { db with stmts := db.stmts + 1 } hused
              [.MYSQL_RES db.results, .MYSQL_STMT db.stmts] ?_
            · have hold : ∀ handle, Database.Old { db with stmts := db.stmts + 1, results := db.results + 1 } handle →
                  db'.Old handle := by
                rw [← hdb, if_neg hfields]
                exact fun _ hold => hold
              simpa [List.append_assoc] using hpassed.perm hheld hold
            · intro handle hhandle
              rcases List.mem_cons.mp hhandle with rfl | hrest
              · exact .inr rfl
              · rw [List.mem_singleton.mp hrest]
                exact .inl (List.mem_cons_self ..)
        · intro hnone
          rw [← hdb] at hnone
          cases hmysql.symm.trans hnone
        · intro hgone
          rw [← hdb] at hgone ⊢
          exact h.destroyed hgone

/-! ## Queries -/

/-- What does not touch a handle. -/
theorem Inv.same (h : Inv db trace) (records : Responses.Database) : Inv { db with records := records } trace :=
  ⟨h.accounts, h.connected, h.destroyed⟩

theorem ignore_inv (h : Inv db trace) (response : Response) :
    Inv (db.ignore response).1 (trace ++ (db.ignore response).2) := by
  cases response with
  | resultSet rows =>
    refine ⟨?_, h.connected, h.destroyed⟩
    have hpassed := passing_result db h.accounts [] (by simp)
    rw [List.append_assoc, List.append_assoc] at hpassed
    exact hpassed
  | storeFailed => simpa [Database.ignore] using h
  | affected rows => simpa [Database.ignore] using h

/-- A query uses the connection. -/
theorem used_mysql {mysql : Nat} (h : Inv db trace) (hmysql : db.mysql = some mysql) :
    Inv db (trace ++ [.used (.MYSQL mysql)]) := by
  refine ⟨h.accounts.used ?_, h.connected, h.destroyed⟩
  simp [Database.held, Database.heldWith, hmysql]

theorem ignoreResults_inv {mysql : Nat} (responses : List Response) : ∀ {db : Database} {trace : List (Event Handle)},
    Inv db trace → db.mysql = some mysql →
    Inv (Database.ignoreResults mysql db responses).1 (trace ++ (Database.ignoreResults mysql db responses).2) ∧
      (Database.ignoreResults mysql db responses).1.mysql = some mysql ∧
      (Database.ignoreResults mysql db responses).1.destroyed = db.destroyed := by
  induction responses with
  | nil =>
    intro db trace h hmysql
    exact ⟨used_mysql h hmysql, hmysql, rfl⟩
  | cons response responses ih =>
    intro db trace h hmysql
    have hfirst := ignore_inv (used_mysql h hmysql) response
    have hsame : (db.ignore response).1.mysql = db.mysql ∧ (db.ignore response).1.destroyed = db.destroyed := by
      cases response <;> exact ⟨rfl, rfl⟩
    obtain ⟨hrest, hmysql', hdestroyed⟩ := ih hfirst (hsame.1.trans hmysql)
    refine ⟨?_, hmysql', hdestroyed.trans hsame.2⟩
    simpa [Database.ignoreResults, List.append_assoc] using hrest

/-- The last record set is destroyed. -/
theorem drop_accounts {held : List Handle} {old : Handle → Prop} (db : Database)
    (h : Accounts needs old (db.lastRecords.toList.map .MYSQL_RES ++ held) trace) :
    Accounts needs old held (trace ++ db.dropRecords) := by
  have hfreed := h.freedAll _ ?_
  · rw [List.map_map] at hfreed
    exact hfreed
  · intro handle hhandle g
    obtain ⟨id, -, rfl⟩ := List.mem_map.mp hhandle
    exact needs_result g id

/-- All but the last record set. -/
theorem records_perm (db : Database) :
    db.held.Perm (db.lastRecords.toList.map .MYSQL_RES ++ (db.mysql.toList.map .MYSQL ++
      db.statements db.cache.stmtCache.keys ++ db.taken.map .MYSQL_RES)) := by
  rw [Database.held, Database.heldWith, List.append_assoc]
  exact List.perm_append_comm_assoc ..

theorem store_inv (h : Inv db trace) (hlive : db.destroyed = false) (response : Response) :
    Inv (db.store response).1 (trace ++ (db.store response).2) := by
  have hgone : ∀ {p : Prop}, db.destroyed = true → p := fun heq => absurd (hlive.symm.trans heq) Bool.false_ne_true
  cases response with
  | resultSet rows =>
    unfold Database.store
    dsimp only
    by_cases hrows : rows = []
    · rw [if_pos hrows]
      refine ⟨?_, h.connected, h.destroyed⟩
      have hpassed := passing_result db h.accounts [.MYSQL_RES db.results] (by simp)
      rw [List.append_assoc, List.append_assoc] at hpassed
      exact hpassed
    · rw [if_neg hrows]
      refine ⟨?_, h.connected, hgone⟩
      have hnew : ¬ db.Old (.MYSQL_RES db.results) := Nat.lt_irrefl db.results
      have hgrow : ∀ handle, db.Old handle → Database.Old { db with results := db.results + 1 } handle := by
        intro handle hold
        cases handle with
        | MYSQL id => exact hold
        | MYSQL_STMT id => exact hold
        | MYSQL_RES id => exact Nat.lt_succ_of_lt hold
      have hmade := ((h.accounts.made hnew hgrow (Nat.lt_succ_self db.results)).used (List.mem_cons_self ..)).used
        (List.mem_cons_self ..)
      have hmoved : (Handle.MYSQL_RES db.results :: db.held).Perm (db.lastRecords.toList.map .MYSQL_RES ++
          (.MYSQL_RES db.results :: (db.mysql.toList.map .MYSQL ++ db.statements db.cache.stmtCache.keys ++
            db.taken.map .MYSQL_RES))) := ((records_perm db).cons _).trans List.perm_middle.symm
      have hdropped := drop_accounts db (hmade.perm hmoved fun _ hold => hold)
      have hheld : (Handle.MYSQL_RES db.results :: (db.mysql.toList.map .MYSQL ++ db.statements db.cache.stmtCache.keys ++
          db.taken.map .MYSQL_RES)).Perm
            (Database.held { db with lastRecords := some db.results, results := db.results + 1 }) :=
        (records_perm { db with lastRecords := some db.results, results := db.results + 1 }).symm
      have hstored := hdropped.perm hheld fun _ hold => hold
      rw [List.append_assoc, List.append_assoc, List.append_assoc] at hstored
      exact hstored
  | storeFailed => simpa [Database.store] using h
  | affected rows =>
    refine ⟨?_, h.connected, hgone⟩
    have hdropped := drop_accounts db (h.accounts.perm (records_perm db) fun _ hold => hold)
    exact hdropped.perm (records_perm { db with lastRecords := none }).symm fun _ hold => hold

theorem query_inv {db' : Database} {events : List (Event Handle)} (h : Inv db trace) (hlive : db.destroyed = false)
    {strSQL : String} {reply : Reply} (hstep : db.query strSQL reply = some (db', events)) :
    Inv db' (trace ++ events) := by
  unfold Database.query at hstep
  split at hstep
  next => cases hstep
  next mysql hmysql =>
    obtain ⟨hignored, hmysql', hdestroyed⟩ := ignoreResults_inv db.records.nextResults h hmysql
    generalize Database.ignoreResults mysql db db.records.nextResults =
      ignoring at hstep hignored hmysql' hdestroyed
    obtain ⟨ignoring, ignored⟩ := ignoring
    dsimp only at hstep hignored hmysql' hdestroyed
    have hasked := (used_mysql hignored hmysql').same (db.records.query strSQL reply).1
    have hlive' : ignoring.destroyed = false := hdestroyed.trans hlive
    cases reply with
    | ok first rest =>
      have hpair := Option.some.inj hstep
      have hdb := congrArg Prod.fst hpair
      have hevents := congrArg Prod.snd hpair
      dsimp only at hdb hevents
      have hstored := store_inv hasked hlive' first
      rw [← hdb, ← hevents]
      simpa [List.append_assoc] using hstored
    | error =>
      cases hstep
      refine ⟨?_, hasked.connected, fun hgone => absurd (hlive'.symm.trans hgone) Bool.false_ne_true⟩
      have hdropped := drop_accounts _ (hasked.accounts.perm (records_perm _) fun _ hold => hold)
      have hheld := hdropped.perm (records_perm { ignoring with lastRecords := none }).symm fun _ hold => hold
      rw [List.append_assoc, List.append_assoc] at hheld
      rw [List.append_assoc]
      exact hheld

theorem nextRecordset_inv {db' : Database} {events : List (Event Handle)} (h : Inv db trace)
    (hlive : db.destroyed = false)
    (hstep : db.nextRecordset = some (db', events)) : Inv db' (trace ++ events) := by
  unfold Database.nextRecordset at hstep
  split at hstep
  next => cases hstep
  next mysql hmysql =>
    have hasked := (used_mysql h hmysql).same db.records.nextRecordset.1
    dsimp only at hstep
    split at hstep
    next =>
      cases hstep
      exact hasked
    next response rest _ =>
      have hpair := Option.some.inj hstep
      have hdb := congrArg Prod.fst hpair
      have hevents := congrArg Prod.snd hpair
      dsimp only at hdb hevents
      have hstored := store_inv hasked hlive response
      rw [← hdb, ← hevents]
      simpa [List.append_assoc] using hstored

theorem getLastRecord_inv (h : Inv db trace) : Inv db.getLastRecord trace := by
  refine ⟨?_, h.connected, fun hgone => ⟨(h.destroyed hgone).1, rfl⟩⟩
  have hheld : db.held = db.getLastRecord.held := by
    simp [Database.held, Database.heldWith, Database.getLastRecord, Database.statements]
  rw [← hheld]
  exact h.accounts

theorem destroy_inv (h : Inv db trace) : Inv db.destroy.1 (trace ++ db.destroy.2) := by
  have hoff := logoff_inv h
  have hkeys := logoff_keys h
  have hmysql := (logoff_cases db).1
  unfold Database.destroy
  rcases hlogoff : db.logoff with ⟨off, events⟩
  rw [hlogoff] at hoff hkeys hmysql
  dsimp only at hoff hkeys hmysql ⊢
  refine ⟨?_, fun _ => rfl, fun _ => ⟨hmysql, rfl⟩⟩
  have hclosed : off.closeAll = [] := by simp [Database.closeAll, hkeys, Database.statements]
  have hdropped := drop_accounts off (hoff.accounts.perm (records_perm off) fun _ hold => hold)
  have hheld : off.mysql.toList.map Handle.MYSQL ++ off.statements off.cache.stmtCache.keys ++
    off.taken.map .MYSQL_RES =
      Database.held { off with
        cache := off.cache.clearCache, records := { off.records with lastRecords := none }, lastRecords := none,
        destroyed := true } := by
    have hcleared : off.cache.clearCache.stmtCache.keys = [] := rfl
    simp [Database.held, Database.heldWith, Database.statements, hkeys, hcleared]
  rw [hheld, List.append_assoc] at hdropped
  rw [hclosed, List.append_nil]
  exact hdropped

/-! ## Runs -/

theorem useRecords_accounts (h : Inv db trace) {result : Nat} (hmem : result ∈ db.taken) :
    Accounts needs db.Old db.held (trace ++ [.used (.MYSQL_RES result)]) := by
  apply h.accounts.used
  simp [Database.held, Database.heldWith, hmem]

theorem destroyRecords_inv (h : Inv db trace) {result : Nat} (hmem : result ∈ db.taken) :
    Inv { db with taken := db.taken.erase result } (trace ++ [.freed (.MYSQL_RES result)]) := by
  refine ⟨?_, h.connected, h.destroyed⟩
  have hperm : db.held.Perm
      (.MYSQL_RES result :: Database.held { db with taken := db.taken.erase result }) := by
    have htaken : (db.taken.map Handle.MYSQL_RES).Perm (.MYSQL_RES result :: (db.taken.erase result).map .MYSQL_RES) :=
      (List.perm_cons_erase hmem).map _
    exact (htaken.append_left _).trans List.perm_middle
  apply (h.accounts.perm hperm fun _ hold => hold).freed
  intro g _
  exact needs_result g result

theorem Inv.of_some {made : Database × List (Event Handle)} {db' : Database} {events : List (Event Handle)}
    (h : Inv made.1 (trace ++ made.2)) (hout : some made = some (db', events)) : Inv db' (trace ++ events) := by
  rw [Option.some.inj hout] at h
  exact h

/-- **One call** keeps accounts. -/
theorem step_inv {db' : Database} {events : List (Event Handle)} (h : Inv db trace) {call : Call}
    (hstep : step db call = some (db', events)) : Inv db' (trace ++ events) := by
  have hlive : ∀ {p : Prop} [Decidable p] {out : Option (Database × List (Event Handle))},
      (if p then none else out) = some (db', events) → ¬ p ∧ out = some (db', events) :=
    fun hout => Option.ite_none_left_eq_some.mp hout
  cases call with
  | logon init connect =>
    obtain ⟨hnot, hout⟩ := hlive hstep
    exact (logon_inv h (Bool.eq_false_iff.mpr hnot) init connect).of_some hout
  | logoff =>
    obtain ⟨-, hout⟩ := hlive hstep
    exact (logoff_inv h).of_some hout
  | useMysql =>
    obtain ⟨-, hout⟩ := hlive hstep
    have hused : Inv db (trace ++ db.useMysql) := ⟨useMysql_accounts h, h.connected, h.destroyed⟩
    exact hused.of_some hout
  | endTransaction =>
    obtain ⟨-, hout⟩ := hlive hstep
    have hused : Inv db (trace ++ db.useMysql) := ⟨useMysql_accounts h, h.connected, h.destroyed⟩
    exact hused.of_some hout
  | prepare sql answer now order =>
    obtain ⟨-, hout⟩ := hlive hstep
    exact prepare_inv h hout
  | useStatement sql =>
    obtain ⟨hnot, hout⟩ := hlive hstep
    rw [not_or, not_not] at hnot
    have hstatement : Inv db (trace ++ [.used (.MYSQL_STMT (db.stmt sql))]) :=
      ⟨h.accounts.used (statement_mem hnot.2), h.connected, h.destroyed⟩
    have haccounts := useMysql_accounts hstatement
    rw [List.append_assoc, List.singleton_append] at haccounts
    have hused : Inv db (trace ++ .used (.MYSQL_STMT (db.stmt sql)) :: db.useMysql) :=
      ⟨haccounts, h.connected, h.destroyed⟩
    exact hused.of_some hout
  | freeStatement sql =>
    obtain ⟨-, hout⟩ := hlive hstep
    exact (freeStatement_inv h sql).of_some hout
  | clearCache =>
    obtain ⟨-, hout⟩ := hlive hstep
    exact (clearCache_inv h).of_some hout
  | query strSQL reply =>
    obtain ⟨hnot, hout⟩ := hlive hstep
    exact query_inv h (Bool.eq_false_iff.mpr hnot) hout
  | nextRecordset =>
    obtain ⟨hnot, hout⟩ := hlive hstep
    exact nextRecordset_inv h (Bool.eq_false_iff.mpr hnot) hout
  | getLastRecord =>
    obtain ⟨-, hout⟩ := hlive hstep
    have hmoved : Inv db.getLastRecord (trace ++ []) := by simpa using getLastRecord_inv h
    exact hmoved.of_some hout
  | useRecords result =>
    obtain ⟨hmem, hout⟩ := Option.ite_none_right_eq_some.mp hstep
    have hused : Inv db (trace ++ [.used (.MYSQL_RES result)]) :=
      ⟨useRecords_accounts h hmem, h.connected, h.destroyed⟩
    exact hused.of_some hout
  | destroyRecords result =>
    obtain ⟨hmem, hout⟩ := Option.ite_none_right_eq_some.mp hstep
    exact (destroyRecords_inv h hmem).of_some hout
  | destroy =>
    obtain ⟨-, hout⟩ := hlive hstep
    exact (destroy_inv h).of_some hout

theorem new_inv (maxStmtCache : Nat) : Inv (.new maxStmtCache) [] := by
  refine ⟨Accounts.nil _, fun _ => rfl, ?_⟩
  intro hgone
  cases hgone

theorem run_inv {maxStmtCache : Nat} {calls : List Call} {db : Database} {out : List (List (Event Handle))}
    (hrun : runOps step (.new maxStmtCache) calls = some (db, out)) : Inv db out.flatten := by
  refine runOps_inv (fun db _ out => Inv db out.flatten) ?_ (new_inv maxStmtCache) hrun
  intro db calls out call db' events h hstep
  have hnext := step_inv h hstep
  rwa [List.flatten_append, List.flatten_singleton]

/-! ### The record set of the model of the queries

It is there exactly when there is a handle for it. -/

def Matching (db : Database) : Prop := db.lastRecords.isSome = db.records.lastRecords.isSome

theorem matching_of_none (hlast : db.lastRecords = none) (hrecords : db.records.lastRecords = none) :
    Matching db := by
  simp [Matching, hlast, hrecords]

theorem store_matching {records : Responses.Database} (h : db.lastRecords.isSome = records.lastRecords.isSome)
    (sql : String) (response : Response) :
    (db.store response).1.lastRecords.isSome = (records.store sql response).lastRecords.isSome := by
  cases response with
  | resultSet rows =>
    by_cases hrows : rows = []
    · simp [Database.store, Responses.Database.store, hrows, h]
    · simp [Database.store, Responses.Database.store, hrows]
  | storeFailed => simp [Database.store, Responses.Database.store, h]
  | affected rows => simp [Database.store, Responses.Database.store]

theorem store_records (db : Database) (response : Response) : (db.store response).1.records = db.records := by
  cases response with
  | resultSet rows => by_cases hrows : rows = [] <;> simp [Database.store, hrows]
  | storeFailed => rfl
  | affected rows => rfl

theorem ignoreResults_same (mysql : Nat) (responses : List Response) : ∀ (db : Database),
    (Database.ignoreResults mysql db responses).1.lastRecords = db.lastRecords ∧
      (Database.ignoreResults mysql db responses).1.records = db.records := by
  induction responses with
  | nil =>
    intro db
    exact ⟨rfl, rfl⟩
  | cons response responses ih =>
    intro db
    have hfirst : (db.ignore response).1.lastRecords = db.lastRecords ∧
      (db.ignore response).1.records = db.records := by
      cases response <;> exact ⟨rfl, rfl⟩
    obtain ⟨hlast, hrecords⟩ := ih (db.ignore response).1
    exact ⟨hlast.trans hfirst.1, hrecords.trans hfirst.2⟩

theorem Matching.of_some {made : Database × List (Event Handle)} {db' : Database} {events : List (Event Handle)}
    (h : Matching made.1) (hout : some made = some (db', events)) : Matching db' := by
  rw [Option.some.inj hout] at h
  exact h

theorem query_matching {db' : Database} {events : List (Event Handle)} (h : Matching db)
    {strSQL : String} {reply : Reply} (hstep : db.query strSQL reply = some (db', events)) : Matching db' := by
  unfold Database.query at hstep
  split at hstep
  next => cases hstep
  next mysql hmysql =>
    have hsame := ignoreResults_same mysql db.records.nextResults db
    generalize Database.ignoreResults mysql db db.records.nextResults = ignoring at hstep hsame
    obtain ⟨ignoring, ignored⟩ := ignoring
    dsimp only at hstep hsame
    cases reply with
    | ok first rest =>
      refine Matching.of_some ?_ hstep
      dsimp only
      rw [Matching, store_records]
      apply store_matching
      rw [hsame.1]
      exact h
    | error =>
      refine Matching.of_some ?_ hstep
      exact matching_of_none rfl rfl

theorem nextRecordset_matching {db' : Database} {events : List (Event Handle)} (h : Matching db)
    (hstep : db.nextRecordset = some (db', events)) : Matching db' := by
  unfold Database.nextRecordset at hstep
  split at hstep
  next => cases hstep
  next mysql hmysql =>
    dsimp only at hstep
    split at hstep
    next hnext =>
      refine Matching.of_some ?_ hstep
      simpa [Matching, Responses.Database.nextRecordset, hnext] using h
    next response rest hnext =>
      refine Matching.of_some ?_ hstep
      dsimp only
      rw [Matching, store_records]
      simp only [Responses.Database.nextRecordset, hnext]
      apply store_matching
      exact h

theorem prepare_matching {db' : Database} {events : List (Event Handle)} (h : Matching db) {sql : String}
    {answer : Option Prepared} {now : Int} {order : LastUseSort}
    (hstep : db.prepare sql answer now order = some (db', events)) : Matching db' := by
  unfold Database.prepare at hstep
  dsimp only at hstep
  split at hstep
  next => exact Matching.of_some h hstep
  next =>
    split at hstep
    next => cases hstep
    next =>
      cases answer with
      | none => exact Matching.of_some h hstep
      | some prepared => exact Matching.of_some h hstep

theorem logoff_matching (h : Matching db) : Matching db.logoff.1 := by
  unfold Database.logoff
  cases db.mysql with
  | none => exact h
  | some mysql => exact h

theorem step_matching {db' : Database} {events : List (Event Handle)} (h : Matching db) {call : Call}
    (hstep : step db call = some (db', events)) : Matching db' := by
  have hlive : ∀ {p : Prop} [Decidable p] {out : Option (Database × List (Event Handle))},
      (if p then none else out) = some (db', events) → out = some (db', events) :=
    fun hout => (Option.ite_none_left_eq_some.mp hout).2
  cases call with
  | logon init connect =>
    refine Matching.of_some ?_ (hlive hstep)
    have hoff := logoff_matching h
    unfold Database.logon
    cases init with
    | false => exact hoff
    | true => exact hoff
  | logoff => exact (logoff_matching h).of_some (hlive hstep)
  | useMysql => exact Matching.of_some h (hlive hstep)
  | endTransaction => exact Matching.of_some h (hlive hstep)
  | prepare sql answer now order => exact prepare_matching h (hlive hstep)
  | useStatement sql => exact Matching.of_some h (hlive hstep)
  | freeStatement sql => exact Matching.of_some h (hlive hstep)
  | clearCache => exact Matching.of_some h (hlive hstep)
  | query strSQL reply => exact query_matching h (hlive hstep)
  | nextRecordset => exact nextRecordset_matching h (hlive hstep)
  | getLastRecord => exact Matching.of_some (matching_of_none rfl rfl) (hlive hstep)
  | useRecords result => exact Matching.of_some h (Option.ite_none_right_eq_some.mp hstep).2
  | destroyRecords result => exact Matching.of_some h (Option.ite_none_right_eq_some.mp hstep).2
  | destroy =>
    refine Matching.of_some ?_ (hlive hstep)
    exact matching_of_none rfl rfl

theorem run_matching {maxStmtCache : Nat} {calls : List Call} {db : Database} {out : List (List (Event Handle))}
    (hrun : runOps step (.new maxStmtCache) calls = some (db, out)) : Matching db := by
  refine runOps_inv (fun db _ _ => Matching db) ?_ (matching_of_none rfl rfl) hrun
  intro db _ _ call db' events h hstep
  exact step_matching h hstep

/-- **The handles of a database, in every run.**  Each is made once, used and freed only while it is alive, and
a connection is freed after its statements; those alive are the ones that the database, which has one for its
record set exactly when it has a record set, and its callers have; and after the destructor they are record sets
that a caller has. -/
theorem handles_orderly (maxStmtCache : Nat) (calls : List Call) (db : Database) (out : List (List (Event Handle)))
    (hrun : runOps step (.new maxStmtCache) calls = some (db, out)) :
    Orderly needs out.flatten ∧ (∀ handle, Alive out.flatten handle ↔ handle ∈ db.held) ∧ Matching db ∧
      (db.destroyed = true → ∀ handle, Alive out.flatten handle ↔
        ∃ result ∈ db.taken, handle = .MYSQL_RES result) := by
  have h := run_inv hrun
  obtain ⟨horderly, -, halive⟩ := h.accounts.orderly
  refine ⟨horderly, halive, run_matching hrun, ?_⟩
  intro hgone handle
  obtain ⟨hmysql, hlast⟩ := h.destroyed hgone
  have hheld : db.held = db.taken.map .MYSQL_RES := by
    simp [Database.held, Database.heldWith, Database.statements, hmysql, hlast, h.connected hmysql]
  rw [halive, hheld, List.mem_map]
  simp only [eq_comm]

/-- Three statements under a limit of two, and a query whose record set a caller has after the destructor. -/
def takenCalls : List Call :=
  [.logon true true, .prepare "SELECT ?" (some ⟨1, [.LONG]⟩) 1 insertionOrder,
    .prepare "UPDATE t" (some ⟨0, []⟩) 2 insertionOrder, .prepare "DELETE FROM t" (some ⟨0, []⟩) 3 insertionOrder,
    .query "SELECT 1" (.ok (.resultSet [[some "1"]]) []), .getLastRecord, .destroy, .useRecords 1]

theorem handles_orderly_taken :
    ∃ db out, runOps step (.new 2) takenCalls = some (db, out) ∧
      Orderly needs out.flatten ∧ (∀ handle, Alive out.flatten handle ↔ handle ∈ db.held) ∧ Matching db ∧
      (db.destroyed = true → ∀ handle, Alive out.flatten handle ↔
        ∃ result ∈ db.taken, handle = .MYSQL_RES result) :=
  ⟨_, _, rfl, handles_orderly 2 takenCalls _ _ rfl⟩

end Libws.Sessions
