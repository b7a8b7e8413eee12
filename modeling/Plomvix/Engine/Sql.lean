import Plomvix.Engine.Insert
import Plomvix.Engine.Sanitize

/-! The engine: the catalog, the heaps and the transaction numbers that a statement works on, the cache
of plan templates in front of the planner, and the statements. -/
namespace Plomvix.Engine
open Lib

inductive InsertRows
  | values (rows : List (List Expr))
  /-- The text of the query, which is parsed again. -/
  | query (sql : Bytes)
  deriving DecidableEq

/-- The `INSERT` statements of the parser. -/
structure InsertStmt where
  table : Bytes
  columns : List Bytes
  rows : InsertRows
  deriving DecidableEq

inductive DDLAction
  | create | drop | other
  deriving DecidableEq

/-- A column of `CREATE TABLE`, its type as written. -/
structure ColumnDef where
  name : Bytes
  typ : Bytes
  deriving DecidableEq

/-- The data definition statements of the parser. -/
structure DDLStmt where
  action : DDLAction
  table : Bytes
  fromTables : List Bytes
  spec : List ColumnDef
  deriving DecidableEq

/-- What the engine reads off a syntax tree. -/
inductive Statement
  | select (tables ctes : List Bytes) (where? : Option Expr) (exprs : List SelectExpr)
  | insert (stmt : InsertStmt)
  | ddl (stmt : DDLStmt)
  | other (tables ctes : List Bytes)
  deriving DecidableEq

def Statement.IsSelect : Statement → Prop
  | .select _ _ _ _ => True
  | _ => False

def Statement.query : Statement → Query
  | .select tables ctes where? exprs => ⟨tables,ctes,some (where?,exprs)⟩
  | .other tables ctes => ⟨tables,ctes,none⟩
  | .insert stmt => ⟨[stmt.table],[],none⟩
  | .ddl stmt => ⟨stmt.table::stmt.fromTables,[],none⟩

/-- The parser that the engine imports: it makes trees, prints them, and `read` is what the engine
reads of one. -/
structure Vitess where
  Tree : Type
  parse : Bytes → Option Tree
  canonicalString : Tree → Bytes
  read : Tree → Statement

/-- A statement with the text it was parsed from. -/
structure Stmt (vitess : Vitess) where
  sql : Bytes
  ast : vitess.Tree

/-- What the engine is given and does not change. -/
structure Deps where
  vitess : Vitess
  lib : GoLib
  sha256 : Bytes → Bytes
  limits : SQL.Limits
  maxBatchSize : ℕ
  checkGlobalPermission : UInt64 → Bool

def sanitize (vitess : Vitess) (sql : Bytes) : Bytes :=
  match vitess.parse (stripCommentsLex sql) with
  | some tree => lexicalRedact (vitess.canonicalString tree)
  | none => lexicalRedact (stripCommentsLex sql)

def hexDigit (n : ℕ) : UInt8 := UInt8.ofNat (if n < 10 then 48+n else 87+n)

def hexString (b : Bytes) : Bytes := b.flatMap fun x => [hexDigit (x.toNat/16),hexDigit (x.toNat%16)]

def fingerprint (deps : Deps) (sql : Bytes) : Bytes := hexString (deps.sha256 (sanitize deps.vitess sql))

/-- Under what the plan cache files a plan. -/
structure CacheKey where
  fingerprint : Bytes
  schemaVersion : UInt64

def CacheKey.string (k : CacheKey) : Bytes := k.fingerprint++ascii "@v"++decimal k.schemaVersion.toNat

/-- With `maxSize` zero the cache is disabled. -/
structure PlanCache where
  maxSize : ℕ
  items : List (Bytes × PlanTemplate)
  order : List Bytes

def PlanCache.new (maxSize : ℕ) : PlanCache := ⟨maxSize,[],[]⟩

def PlanCache.lookup (c : PlanCache) (key : CacheKey) : Option PlanTemplate :=
  if c.maxSize = 0 then none else Assoc.lookup key.string c.items

def PlanCache.evict (c : PlanCache) : PlanCache :=
  if c.order.length < c.maxSize then c
  else match c.order with
    | [] => c
    | oldest::order => { c with items := Assoc.erase oldest c.items, order := order }

/-- A full cache drops its oldest plan. -/
def PlanCache.store (c : PlanCache) (key : CacheKey) (tmpl : PlanTemplate) : PlanCache :=
  if c.maxSize = 0 then c
  else if (Assoc.lookup key.string c.items).isSome then c
  else { c.evict with
    items := Assoc.put key.string tmpl c.evict.items, order := c.evict.order++[key.string] }

/-- The two counters transactions are numbered from. -/
structure TxManager where
  nextRead : UInt64
  nextWrite : UInt64

/-- The loop ends in its second round at the latest, unless the numbers are used up. -/
def TxManager.nextReadTx (m : TxManager) : Option (UInt64 × TxManager) :=
  if m.nextWrite ≤ m.nextRead+1 then some (m.nextRead+1,{ m with nextRead := m.nextRead+1 })
  else if m.nextWrite ≤ m.nextWrite+1 then some (m.nextWrite+1,{ m with nextRead := m.nextWrite+1 })
  else none

def TxManager.nextWriteTx (m : TxManager) : UInt64 × TxManager :=
  (m.nextWrite+1,{ m with nextWrite := m.nextWrite+1 })

/-- The tables in the cache of the catalog, and its counters. -/
structure Catalog where
  tables : List (Bytes × TableInfo)
  nextTableID : UInt64
  schemaVersion : UInt64

def Catalog.getTable (c : Catalog) (tableName : Bytes) : Except Err TableInfo :=
  match Assoc.lookup tableName c.tables with
  | none => .error .tableNotFound
  | some info => .ok info

/-- The writes of the catalog to its own tables, in their order. -/
inductive CatalogWrite
  | metaRow | tableRow | historyRow | auditRow
  deriving DecidableEq

def Catalog.registerTable (c : Catalog) (fails : Option CatalogWrite) (info : TableInfo)
    (tableName : Bytes) :
    Except Err Unit × Catalog :=
  if tableName = [] then (.error .emptyName,c)
  else if (Assoc.lookup tableName c.tables).isSome then (.error .duplicateTable,c)
  else match fails with
    | some .metaRow => (.error (.wrap "catalog: meta: %w" (.heap .store) []),c)
    | some .tableRow => (.error (.wrap "catalog: insert table: %w" (.heap .store) []),c)
    | some .historyRow => (.error (.wrap "catalog: history: %w" (.heap .store) []),c)
    | some .auditRow => (.error (.wrap "catalog: audit: %w" (.heap .store) []),c)
    | none =>
      (.ok (),{ c with
        tables := Assoc.put tableName info c.tables, schemaVersion := c.schemaVersion+1 })

def Catalog.dropTable (c : Catalog) (fails : Option CatalogWrite) (tableName : Bytes) :
    Except Err Unit × Catalog :=
  if tableName = [] then (.error .emptyName,c)
  else if (Assoc.lookup tableName c.tables).isNone then (.error .tableNotFound,c)
  else match fails with
    | some .metaRow => (.error (.wrap "catalog: meta: %w" (.heap .store) []),c)
    | some .tableRow => (.error (.wrap "catalog: delete table: %w" (.heap .store) []),c)
    | some .historyRow => (.error (.wrap "catalog: history: %w" (.heap .store) []),c)
    | some .auditRow => (.error (.wrap "catalog: audit: %w" (.heap .store) []),c)
    | none =>
      (.ok (),{ c with
        tables := Assoc.erase tableName c.tables, schemaVersion := c.schemaVersion+1 })

/-- The engine, with all that its statements change. -/
structure SQLEngine where
  catalog : Catalog
  /-- The adapters of the heap manager. -/
  heaps : List (UInt64 × Adapter)
  cache : PlanCache
  txm : TxManager
  store : Store

/-- The engine that the runtime builds over a catalog and a store: no heap is open, the numbers
start at one. -/
def newEngine (catalog : Catalog) (store : Store) : SQLEngine := ⟨catalog,[],PlanCache.new 128,⟨1,1⟩,store⟩

/-- Which calls below the engine return an error while it works on a statement. -/
structure Faults where
  catalog : Option CatalogWrite
  insert : ℕ → Bool
  next : ℕ → Bool

def Faults.none : Faults := ⟨Option.none,fun _ => false,fun _ => false⟩

/-- One statement of a user at a read transaction. -/
structure Request (vitess : Vitess) where
  stmt : Stmt vitess
  userID : UInt64
  readTxID : UInt64

/-- What a statement answers. -/
structure Result where
  stream : Option (Schema × Stream)
  rowsAffected : ℕ
  message : Bytes
  deriving DecidableEq

def getTableHeap (e : SQLEngine) (tableID : UInt64) : Except Err Adapter :=
  match Assoc.lookup tableID e.heaps with
  | none => .error .tableHeapNotFound
  | some a => .ok a

/-- The schema of the operator that `Build` returns. -/
def PlanTemplate.schema (t : PlanTemplate) : Schema :=
  if t.projections = [] then t.inputSchema else t.outputSchema

def openTemplate (lib : GoLib) (e : SQLEngine) (tmpl : PlanTemplate) (readTx : UInt64) :
    Except Err Result :=
  match getTableHeap e tmpl.tableID with
  | .error _ =>
    .error (.wrap "sql engine: table heap %d: %w" .tableHeapNotFound [decimal tmpl.tableID.toNat])
  | .ok a => .ok ⟨some (tmpl.schema,
      tmpl.build lib a.heapGeneration (heapRows a.table.toSchema e.store.entries readTx)),0,[]⟩

def planQuery (deps : Deps) (e : SQLEngine) (stmt : Statement) : Except Err PlanTemplate :=
  plan deps.lib e.catalog.getTable stmt.query

def cacheKey (deps : Deps) (e : SQLEngine) (sql : Bytes) : CacheKey :=
  ⟨fingerprint deps sql,e.catalog.schemaVersion⟩

def templateFor (deps : Deps) (e : SQLEngine) (stmt : Stmt deps.vitess) :
    Except Err PlanTemplate × PlanCache :=
  match e.cache.lookup (cacheKey deps e stmt.sql) with
  | some tmpl => (.ok tmpl,e.cache)
  | none =>
    match planQuery deps e (deps.vitess.read stmt.ast) with
    | .error err => (.error err,e.cache)
    | .ok tmpl => (.ok tmpl,e.cache.store (cacheKey deps e stmt.sql) tmpl)

def executeSelect (deps : Deps) (req : Request deps.vitess) (e : SQLEngine) :
    Except Err Result × SQLEngine :=
  match e.txm.nextReadTx with
  | none => (.error .hangs,e)
  | some (readTx,txm) =>
    match templateFor deps e req.stmt with
    | (.error err,cache) => (.error err,{ e with txm := txm, cache := cache })
    | (.ok tmpl,cache) =>
      (openTemplate deps.lib e tmpl readTx,{ e with txm := txm, cache := cache })

/-- The heap only compares the names of columns. -/
def goString (b : Bytes) : String := String.ofList (b.map fun c => Char.ofNat c.toNat)

def vitessTypeToKeyKind (vt : Bytes) : Except Err SQL.Kind :=
  if vt ∈ ["int","integer","bigint","smallint","tinyint","mediumint"].map ascii then .ok .int64
  else if vt ∈ ["varchar","char","text","tinytext","mediumtext","longtext"].map ascii then .ok .string
  else if vt ∈ ["blob","varbinary","binary","tinyblob","mediumblob","longblob"].map ascii then .ok .bytes
  else if vt ∈ ["boolean","bool"].map ascii then .ok .int64
  else .error (.format "sql engine: unsupported column type %q in basic tier" [vt])

/-- The loop over the columns; `colNames` are the names before. -/
def ddlColumns (colNames : List Bytes) : List ColumnDef → Except Err (List (Bytes × SQL.Kind))
  | [] => .ok []
  | col::spec =>
    if col.name = [] then ddlColumns colNames spec
    else if col.name ∈ colNames then .error (.format "sql engine: duplicate column %q" [col.name])
    else match vitessTypeToKeyKind col.typ with
      | .error e => .error (.wrap "sql engine: column %q: %w" e [col.name])
      | .ok kind => do return (col.name,kind)::(← ddlColumns (col.name::colNames) spec)

def ddlColumnsToHeapSchema (stmt : DDLStmt) : Except Err (List (Bytes × SQL.Kind)) :=
  if stmt.spec = [] then .error .emptySchema
  else match ddlColumns [] stmt.spec with
    | .error e => .error e
    | .ok [] => .error .emptySchema
    | .ok columns => .ok columns

def keyKindToEngineType : SQL.Kind → Typ
  | .uint64 => .uint64
  | .int64 => .int64
  | .string => .string
  | .bytes => .bytes

def encodeSchemaPayload (columns : List (Bytes × SQL.Kind)) : Except Err Bytes :=
  Schema.encode ⟨columns.map fun col => ⟨col.1,keyKindToEngineType col.2,false,none⟩⟩

/-- The first column is the key. -/
def heapSchema (tableID : UInt64) (columns : List (Bytes × SQL.Kind)) : SQL.Schema :=
  ⟨tableID,columns.map fun col => ⟨goString col.1,col.2⟩,[0]⟩

def createTableHeap (heaps : List (UInt64 × Adapter)) (tableID : UInt64)
    (columns : List (Bytes × SQL.Kind)) :
    Except Err (List (UInt64 × Adapter)) :=
  if (Assoc.lookup tableID heaps).isSome then .error .tableExists
  else match h : SQL.openTable (heapSchema tableID columns) with
    | .error e => .error (.heap e)
    | .ok () => .ok (Assoc.put tableID ⟨⟨heapSchema tableID columns,h⟩,rfl,0,0⟩ heaps)

def executeCreateTable (deps : Deps) (faults : Faults) (userID : UInt64) (stmt : DDLStmt) (e : SQLEngine) :
    Except Err Result × SQLEngine :=
  if stmt.table = [] then (.error (.format "sql engine: empty table name" []),e)
  else if deps.checkGlobalPermission userID = false then (.error .unsupportedFeature,e)
  else match ddlColumnsToHeapSchema stmt with
    | .error err => (.error err,e)
    | .ok columns =>
      match encodeSchemaPayload columns with
      | .error err => (.error (.wrap "sql engine: encode schema: %w" err []),e)
      | .ok schemaPayload =>
        let tableID := e.catalog.nextTableID
        let e := { e with catalog := { e.catalog with nextTableID := tableID+1 } }
        match createTableHeap e.heaps tableID columns with
        | .error err => (.error (.wrap "sql engine: create heap: %w" err []),e)
        | .ok heaps =>
          match e.catalog.registerTable faults.catalog ⟨tableID,schemaPayload⟩ stmt.table with
          | (.error err,catalog) =>
            (.error (.wrap "sql engine: register table: %w" err []),
              { e with heaps := heaps, catalog := catalog })
          | (.ok _,catalog) =>
            (.ok ⟨none,0,ascii "CREATE TABLE "++stmt.table++ascii " (table_id="++decimal
              tableID.toNat++ascii ")"⟩,
              { e with heaps := heaps, catalog := catalog })

def executeDropTable (deps : Deps) (faults : Faults) (userID : UInt64) (stmt : DDLStmt) (e : SQLEngine) :
    Except Err Result × SQLEngine :=
  match stmt.fromTables with
  | [] => (.error (.format "sql engine: empty table name" []),e)
  | tableName::_ =>
    if tableName = [] then (.error (.format "sql engine: empty table name" []),e)
    else if deps.checkGlobalPermission userID = false then (.error .unsupportedFeature,e)
    else match e.catalog.getTable tableName with
      | .error err => (.error err,e)
      | .ok _ =>
        match e.catalog.dropTable faults.catalog tableName with
        | (.error err,catalog) => (.error err,{ e with catalog := catalog })
        | (.ok _,catalog) => (.ok ⟨none,0,ascii "DROP TABLE "++tableName⟩,{ e with catalog := catalog })

def executeDDL (deps : Deps) (faults : Faults) (userID : UInt64) (stmt : DDLStmt) (e : SQLEngine) :
    Except Err Result × SQLEngine :=
  match stmt.action with
  | .create => executeCreateTable deps faults userID stmt e
  | .drop => executeDropTable deps faults userID stmt e
  | .other => (.error .unsupportedDDL,e)

/-- The target of an INSERT: the schema of the engine and the heap. -/
def insertTarget (e : SQLEngine) (tableName : Bytes) : Except Err (UInt64 × Schema × Adapter) := do
  let info ← e.catalog.getTable tableName
  let engSchema ← (Schema.decode info.schemaPayload).mapError fun err =>
    .wrap "sql engine: decode schema: %w" err []
  let heap ← (getTableHeap e info.tableID).mapError fun err =>
    .wrap "sql engine: get table heap: %w" err []
  return (info.tableID,engSchema,heap)

def insertResult (n : ℕ) : Result := ⟨none,n,ascii "INSERT 0 "++decimal n⟩

def published (e : SQLEngine) (tableID : UInt64) (r : Except Err ℕ × Adapter × Store) :
    Except Err Result × SQLEngine :=
  (r.1.map insertResult,{ e with heaps := Assoc.put tableID r.2.1 e.heaps, store := r.2.2 })

def insertSource (deps : Deps) (faults : Faults) (sql : Bytes) (readTx : UInt64) (e : SQLEngine) :
    Except Err Stream := do
  let tree ← match deps.vitess.parse sql with
    | none => .error (.wrap "sql engine: parse SELECT: %w" .syntaxError [])
    | some tree => .ok tree
  let tmpl ← (planQuery deps e (deps.vitess.read tree)).mapError fun err =>
    .wrap "sql engine: plan SELECT: %w" err []
  let src ← (getTableHeap e tmpl.tableID).mapError fun err => .wrap "sql engine: source heap: %w" err []
  let rows := tmpl.build deps.lib src.heapGeneration (heapRows src.table.toSchema e.store.entries readTx)
  return rows.mapIdx fun i next => if faults.next i then .error .source else next

def execInsertSelect (deps : Deps) (faults : Faults) (tableName sql : Bytes)
    (readTx writeTx : UInt64) (e : SQLEngine) :
    Except Err Result × SQLEngine :=
  match insertTarget e tableName with
  | .error err => (.error err,e)
  | .ok (tableID,engSchema,heap) =>
    match insertSource deps faults sql readTx e with
    | .error err => (.error err,e)
    | .ok source =>
      published e tableID (heap.insertStream deps.limits writeTx faults.insert deps.lib engSchema
        source e.store)

def execInsert (deps : Deps) (faults : Faults) (stmt : InsertStmt) (readTx writeTx : UInt64)
    (e : SQLEngine) :
    Except Err Result × SQLEngine :=
  match stmt.rows with
  | .query sql => execInsertSelect deps faults stmt.table sql readTx writeTx e
  | .values values =>
    if deps.maxBatchSize < values.length then (.error .batchTooLarge,e)
    else match insertTarget e stmt.table with
      | .error err => (.error err,e)
      | .ok (tableID,engSchema,heap) =>
        match buildRows deps.lib engSchema stmt.columns values with
        | .error err => (.error err,e)
        | .ok rows => published e tableID (heap.insertBatch deps.limits writeTx faults.insert rows e.store)

def execute (deps : Deps) (faults : Faults) (req : Request deps.vitess) (e : SQLEngine) :
    Except Err Result × SQLEngine :=
  match deps.vitess.read req.stmt.ast with
  | .select _ _ _ _ => executeSelect deps req e
  | .ddl stmt => executeDDL deps faults req.userID stmt { e with txm := e.txm.nextWriteTx.2 }
  | .insert stmt =>
    execInsert deps faults stmt req.readTxID e.txm.nextWriteTx.1
      { e with txm := e.txm.nextWriteTx.2 }
  | .other _ _ => (.error .unsupportedFeature,e)

/-- What a DDL statement can change: the heaps, and the tables of the catalog together with their
version. -/
structure DDLEffect (e e' : SQLEngine) : Prop where
  cache : e'.cache = e.cache
  txm : e'.txm = e.txm
  store : e'.store = e.store
  catalog : e'.catalog.tables = e.catalog.tables ∧ e'.catalog.schemaVersion = e.catalog.schemaVersion ∨
    e'.catalog.schemaVersion = e.catalog.schemaVersion+1

section Effects
variable {deps : Deps} {faults : Faults} {e : SQLEngine}

lemma DDLEffect.refl (e : SQLEngine) : DDLEffect e e := ⟨rfl,rfl,rfl,.inl ⟨rfl,rfl⟩⟩

lemma registerTable_effect (c : Catalog) (fails : Option CatalogWrite) (info : TableInfo)
    (tableName : Bytes) :
    (c.registerTable fails info tableName).2 = c ∨
      (c.registerTable fails info tableName).2.schemaVersion = c.schemaVersion+1 := by
  unfold Catalog.registerTable
  split_ifs
  · exact .inl rfl
  · exact .inl rfl
  · split
    iterate 4 exact .inl rfl
    exact .inr rfl

lemma dropTable_effect (c : Catalog) (fails : Option CatalogWrite) (tableName : Bytes) :
    (c.dropTable fails tableName).2 = c ∨
      (c.dropTable fails tableName).2.schemaVersion = c.schemaVersion+1 := by
  unfold Catalog.dropTable
  split_ifs
  · exact .inl rfl
  · exact .inl rfl
  · split
    iterate 4 exact .inl rfl
    exact .inr rfl

lemma executeCreateTable_effect (userID : UInt64) (stmt : DDLStmt) :
    DDLEffect e (executeCreateTable deps faults userID stmt e).2 := by
  unfold executeCreateTable
  split_ifs
  · exact DDLEffect.refl e
  · exact DDLEffect.refl e
  cases ddlColumnsToHeapSchema stmt with
  | error err => exact DDLEffect.refl e
  | ok columns =>
    simp only
    cases encodeSchemaPayload columns with
    | error err => exact DDLEffect.refl e
    | ok schemaPayload =>
      simp only
      cases createTableHeap e.heaps e.catalog.nextTableID columns with
      | error err => exact ⟨rfl,rfl,rfl,.inl ⟨rfl,rfl⟩⟩
      | ok heaps =>
        have heffect := registerTable_effect
          { e.catalog with nextTableID := e.catalog.nextTableID+1 } faults.catalog
          ⟨e.catalog.nextTableID,schemaPayload⟩ stmt.table
        simp only
        rcases hr : Catalog.registerTable { e.catalog with nextTableID := e.catalog.nextTableID+1 }
          faults.catalog
          ⟨e.catalog.nextTableID,schemaPayload⟩ stmt.table with ⟨r,catalog⟩
        rw [hr] at heffect
        cases r <;> refine ⟨rfl,rfl,rfl,heffect.imp (fun h => ?_) id⟩ <;> subst h <;> exact ⟨rfl,rfl⟩

lemma executeDropTable_effect (userID : UInt64) (stmt : DDLStmt) :
    DDLEffect e (executeDropTable deps faults userID stmt e).2 := by
  unfold executeDropTable
  cases stmt.fromTables with
  | nil => exact DDLEffect.refl e
  | cons tableName rest =>
    simp only
    split_ifs
    · exact DDLEffect.refl e
    · exact DDLEffect.refl e
    cases e.catalog.getTable tableName with
    | error err => exact DDLEffect.refl e
    | ok info =>
      have heffect := dropTable_effect e.catalog faults.catalog tableName
      simp only
      rcases hr : e.catalog.dropTable faults.catalog tableName with ⟨r,catalog⟩
      rw [hr] at heffect
      cases r <;> refine ⟨rfl,rfl,rfl,heffect.imp (fun h => ?_) id⟩ <;> subst h <;> exact ⟨rfl,rfl⟩

lemma executeDDL_effect (userID : UInt64) (stmt : DDLStmt) :
    DDLEffect e (executeDDL deps faults userID stmt e).2 := by
  unfold executeDDL
  cases stmt.action with
  | create => exact executeCreateTable_effect userID stmt
  | drop => exact executeDropTable_effect userID stmt
  | other => exact DDLEffect.refl e

lemma execInsert_effect (stmt : InsertStmt) (readTx writeTx : UInt64) : ∃ heaps store,
    (execInsert deps faults stmt readTx writeTx e).2 = { e with heaps := heaps, store := store } := by
  rw [execInsert]
  cases stmt.rows with
  | query sql =>
    simp only [execInsertSelect]
    cases insertTarget e stmt.table with
    | error err => exact ⟨e.heaps,e.store,rfl⟩
    | ok target =>
      simp only
      cases insertSource deps faults sql readTx e with
      | error err => exact ⟨e.heaps,e.store,rfl⟩
      | ok source => exact ⟨_,_,rfl⟩
  | values values =>
    simp only
    split
    · exact ⟨e.heaps,e.store,rfl⟩
    · cases insertTarget e stmt.table with
      | error err => exact ⟨e.heaps,e.store,rfl⟩
      | ok target =>
        simp only
        cases buildRows deps.lib target.2.1 stmt.columns values with
        | error err => exact ⟨e.heaps,e.store,rfl⟩
        | ok rows => exact ⟨_,_,rfl⟩

lemma execute_cache {req : Request deps.vitess} (h : (deps.vitess.read req.stmt.ast).query.select = none) :
    (execute deps faults req e).2.cache = e.cache := by
  rw [execute]
  cases hs : deps.vitess.read req.stmt.ast with
  | select tables ctes where? exprs =>
    rw [hs] at h
    cases h
  | insert stmt =>
    obtain ⟨heaps,store,heq⟩ : ∃ heaps store,
        (execInsert deps faults stmt req.readTxID e.txm.nextWriteTx.1
          { e with txm := e.txm.nextWriteTx.2 }).2 =
            { e with txm := e.txm.nextWriteTx.2, heaps := heaps, store := store } :=
      execInsert_effect stmt ..
    rw [heq]
  | ddl stmt =>
    exact (executeDDL_effect (e := { e with txm := e.txm.nextWriteTx.2 }) req.userID stmt).cache
  | other tables ctes => rfl

end Effects

/-- A parser of a few texts, each given with its canonical form and what is read of it. -/
def scripted (script : List (Bytes × Bytes × Statement)) : Vitess where
  Tree := Bytes × Statement
  parse sql := Assoc.lookup sql script
  canonicalString tree := tree.1
  read tree := tree.2

/-- Names in ASCII, and no floats. -/
def plainLib : GoLib where
  toLower b := b.map fun c => if 65 ≤ c ∧ c ≤ 90 then c+32 else c
  parseFloat _ := none
  scanFloat _ := 0
  floatEq a b := a == b
  floatLess _ _ := false
  floatOfInt _ := 0
  floatOfUint _ := 0
  intOfFloat _ := 0
  uintOfFloat _ := 0

/-- The engine over the parser of the script, with the limits of the runtime. -/
def plainDeps (script : List (Bytes × Bytes × Statement)) : Deps where
  vitess := scripted script
  lib := plainLib
  sha256 b := b
  limits := SQL.btreeLimits
  maxBatchSize := 1000
  checkGlobalPermission _ := true

def emptyStore : Store := ⟨[],List.Pairwise.nil⟩

def createUsers : Statement :=
  .ddl ⟨.create,ascii "users",[],[⟨ascii "id",ascii "int"⟩,⟨ascii "name",ascii "varchar"⟩]⟩

def intLit (s : String) : Expr := .literal ⟨.intVal,ascii s⟩

def strLit (s : String) : Expr := .literal ⟨.strVal,ascii s⟩

def insertUsers (rows : List (List Expr)) : Statement := .insert ⟨ascii "users",[],.values rows⟩

def request (stmt : Statement) : Request (scripted []) := ⟨⟨[],([],stmt)⟩,0,0⟩

/-- The statements one after another, without faults. -/
def runScript (stmts : List Statement) (e : SQLEngine) : SQLEngine :=
  stmts.foldl (fun e stmt => (execute (plainDeps []) Faults.none (request stmt) e).2) e

end Plomvix.Engine
