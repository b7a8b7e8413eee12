import Plomvix.Engine.Sql

/-! A stop and a new start: the store and the tables of the catalog are there again, everything else is
built anew. No heap is opened for the tables that the catalog knows. -/
namespace Plomvix.Engine
open Lib

/-- The counters as `loadCache` finds them; the version of the schema counts from zero again. -/
def Catalog.reload (c : Catalog) : Catalog where
  tables := c.tables
  nextTableID := c.tables.foldl (fun next t => if next ≤ t.2.tableID then t.2.tableID+1 else next) 1
  schemaVersion := 0

/-- A new engine over what the old one has stored. -/
def restart (e : SQLEngine) : SQLEngine := newEngine e.catalog.reload e.store

def Statement.IsCreate : Statement → Prop
  | .ddl stmt => stmt.action = .create
  | _ => False

def Statement.IsInsert : Statement → Prop
  | .insert _ => True
  | _ => False

/-- The engine after CREATE TABLE and INSERT statements that all succeeded, on a new database. -/
inductive Ran (deps : Deps) : List Statement → SQLEngine → Prop
  | start : Ran deps [] (newEngine ⟨[],1,0⟩ emptyStore)
  | step {stmts : List Statement} {e : SQLEngine} {faults : Faults} {req : Request deps.vitess}
      {r : Result}
      (h : Ran deps stmts e) (hkind : (deps.vitess.read req.stmt.ast).IsCreate ∨
        (deps.vitess.read req.stmt.ast).IsInsert)
      (hok : (execute deps faults req e).1 = .ok r) :
      Ran deps (stmts++[deps.vitess.read req.stmt.ast]) (execute deps faults req e).2

/-- Every SELECT returns what it returned, and every INSERT that would have succeeded does. -/
structure Survives (deps : Deps) (e : SQLEngine) : Prop where
  select : ∀ (req : Request deps.vitess), (deps.vitess.read req.stmt.ast).IsSelect →
    (execute deps Faults.none req (restart e)).1 = (execute deps Faults.none req e).1
  insert : ∀ (req : Request deps.vitess), (deps.vitess.read req.stmt.ast).IsInsert →
    (∃ r, (execute deps Faults.none req e).1 = .ok r) →
      ∃ r, (execute deps Faults.none req (restart e)).1 = .ok r

section Tables
variable {deps : Deps} {faults : Faults} {req : Request deps.vitess} {e : SQLEngine}

lemma insert_without_heap {stmt : InsertStmt} (hheaps : e.heaps = []) (readTx writeTx : UInt64) :
    ∃ err, (execInsert deps faults stmt readTx writeTx e).1 = .error err := by
  have htarget : ∃ err, insertTarget e stmt.table = .error err := by
    rw [insertTarget]
    cases e.catalog.getTable stmt.table with
    | error err => exact ⟨err,rfl⟩
    | ok info =>
      simp only [bind,Except.bind]
      cases Schema.decode info.schemaPayload with
      | error err => exact ⟨_,rfl⟩
      | ok engSchema =>
        simp only [Except.mapError,getTableHeap,hheaps,Assoc.lookup]
        exact ⟨_,rfl⟩
  obtain ⟨err,htarget⟩ := htarget
  rw [execInsert]
  cases stmt.rows with
  | query sql =>
    simp only [execInsertSelect,htarget]
    exact ⟨err,rfl⟩
  | values values =>
    simp only [htarget]
    split
    · exact ⟨_,rfl⟩
    · exact ⟨err,rfl⟩

lemma openTemplate_without_heap (hheaps : e.heaps = []) (tmpl : PlanTemplate) (readTx : UInt64) :
    openTemplate deps.lib e tmpl readTx =
      .error (.wrap "sql engine: table heap %d: %w" .tableHeapNotFound [decimal tmpl.tableID.toNat]) := by
  rw [openTemplate,getTableHeap,hheaps]
  rfl

lemma executeSelect_planned (hcache : e.cache.items = []) {readTx : UInt64} {txm : TxManager}
    (htx : e.txm.nextReadTx = some (readTx,txm)) : (executeSelect deps req e).1 =
      match planQuery deps e (deps.vitess.read req.stmt.ast) with
      | .error err => .error err
      | .ok tmpl => openTemplate deps.lib e tmpl readTx := by
  have hmiss : e.cache.lookup (cacheKey deps e req.stmt.sql) = none := by
    rw [PlanCache.lookup,hcache]
    split <;> rfl
  rw [executeSelect,htx]
  simp only [templateFor,hmiss]
  cases planQuery deps e (deps.vitess.read req.stmt.ast) <;> rfl

lemma Ran.cache_empty {stmts : List Statement} (h : Ran deps stmts e) : e.cache.items = [] := by
  induction h with
  | start => rfl
  | @step stmts e faults req r _ hkind _ ih =>
    rw [execute_cache,ih]
    cases hs : deps.vitess.read req.stmt.ast with
    | select tables ctes where? exprs =>
      rw [hs] at hkind
      obtain hc | hi := hkind
      · exact hc.elim
      · exact hi.elim
    | _ => rfl

lemma Ran.eq_start {stmts : List Statement} (h : Ran deps stmts e) (hno : ∀ stmt ∈ stmts, ¬stmt.IsCreate) :
    e = newEngine ⟨[],1,0⟩ emptyStore := by
  induction h with
  | start => rfl
  | @step stmts e faults req r _ hkind hok ih =>
    have hlast : ¬(deps.vitess.read req.stmt.ast).IsCreate := hno _ (by simp)
    have hinsert := hkind.resolve_left hlast
    cases hs : deps.vitess.read req.stmt.ast with
    | insert stmt =>
      have hstart := ih fun stmt hm => hno stmt (List.mem_append_left _ hm)
      rw [execute,hs] at hok
      obtain ⟨err,herr⟩ : ∃ err, (execInsert deps faults stmt req.readTxID e.txm.nextWriteTx.1
          { e with txm := e.txm.nextWriteTx.2 }).1 =
            .error err := insert_without_heap (by rw [hstart]; rfl) ..
      simp only at hok
      rw [herr] at hok
      cases hok
    | _ =>
      rw [hs] at hinsert
      exact hinsert.elim

end Tables

/-- On a database without tables there is nothing to lose. Of any other, no row is reached: every INSERT
fails, and every SELECT that returned rows fails for want of the heap. -/
theorem restart_outcome {deps : Deps} {stmts : List Statement} {e : SQLEngine} (h : Ran deps stmts e) :
    ((∀ stmt ∈ stmts, ¬stmt.IsCreate) → Survives deps e) ∧
    (∀ (req : Request deps.vitess) (faults : Faults), (deps.vitess.read req.stmt.ast).IsInsert →
      ∃ err, (execute deps faults req (restart e)).1 = .error err) ∧
    (∀ (req : Request deps.vitess) (r : Result), (deps.vitess.read req.stmt.ast).IsSelect →
      (execute deps Faults.none req e).1 = .ok r → ∃ tableID :
    UInt64, (execute deps Faults.none req (restart e)).1 =
        .error (.wrap "sql engine: table heap %d: %w" .tableHeapNotFound [decimal tableID.toNat])) := by
  refine ⟨fun hno => ?_,fun req faults hinsert => ?_,fun req r hselect hok => ?_⟩
  · rw [h.eq_start hno]
    exact ⟨fun _ _ => rfl,fun _ _ hok => hok⟩
  · cases hs : deps.vitess.read req.stmt.ast with
    | insert stmt =>
      rw [execute,hs]
      exact insert_without_heap rfl ..
    | _ =>
      rw [hs] at hinsert
      exact hinsert.elim
  · cases hs : deps.vitess.read req.stmt.ast with
    | select tables ctes where? exprs =>
      rw [execute,hs] at hok ⊢
      simp only at hok ⊢
      cases htx : e.txm.nextReadTx with
      | none =>
        rw [executeSelect,htx] at hok
        cases hok
      | some tx =>
        rw [executeSelect_planned h.cache_empty htx] at hok
        have hafter : (restart e).txm.nextReadTx = some (2,⟨2,1⟩) := rfl
        have hplan : planQuery deps (restart e) = planQuery deps e := rfl
        rw [executeSelect_planned rfl hafter,hplan]
        cases hp : planQuery deps e (deps.vitess.read req.stmt.ast) with
        | error err =>
          rw [hp] at hok
          cases hok
        | ok tmpl => exact ⟨tmpl.tableID,openTemplate_without_heap rfl tmpl 2⟩
    | _ =>
      rw [hs] at hselect
      exact hselect.elim

lemma ran_createUsers :
    Ran (plainDeps []) [createUsers] (runScript [createUsers] (newEngine ⟨[],1,0⟩ emptyStore)) := by
  have hok : (execute (plainDeps []) Faults.none (request createUsers) (newEngine ⟨[],1,0⟩ emptyStore)).1 =
      .ok ⟨none,0,ascii "CREATE TABLE users (table_id=1)"⟩ := by decide +kernel
  have hcreate : ((plainDeps []).vitess.read (request createUsers).stmt.ast).IsCreate := rfl
  exact Ran.step Ran.start (.inl hcreate) hok

/-- After one CREATE TABLE and a restart every INSERT fails. -/
theorem restart_outcome_createUsers :
    ∃ err, (execute (plainDeps []) Faults.none (request (insertUsers [[intLit "1",strLit "A"]]))
    (restart (runScript [createUsers] (newEngine ⟨[],1,0⟩ emptyStore)))).1 = .error err :=
  (restart_outcome ran_createUsers).2.1 (request (insertUsers [[intLit "1",strLit "A"]]))
    Faults.none trivial

def usersQuery : Statement := .select [ascii "users"] [] none [.aliased (.colName [] (ascii "name")) []]

def populated : List Statement :=
  [createUsers,insertUsers [[intLit "1",strLit "A"],[intLit "2",strLit "B"]]]

/-- Two rows are inserted; after the restart neither the second, which the scan returned before, nor a new
row for a new key is to be had. -/
theorem restart_loses_rows :
    let e := runScript populated (newEngine ⟨[],1,0⟩ emptyStore)
    (execute (plainDeps []) Faults.none (request usersQuery) e).1 =
        .ok ⟨some (⟨[⟨ascii "name",.string,false,none⟩]⟩,[.ok ⟨[⟨.string,.string [66]⟩],0⟩]),0,[]⟩ ∧
      (execute (plainDeps []) Faults.none (request usersQuery) (restart e)).1 =
        .error (.wrap "sql engine: table heap %d: %w" .tableHeapNotFound [[49]]) ∧
      (execute (plainDeps []) Faults.none (request (insertUsers [[intLit "3",strLit "C"]]))
        (restart e)).1 =
        .error (.wrap "sql engine: get table heap: %w" .tableHeapNotFound []) := by decide +kernel

end Plomvix.Engine
