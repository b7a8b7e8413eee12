import Plomvix.Planner.Stored
import Plomvix.SQL.Scan

/-! The statements that read rows in order to write: UPDATE, DELETE and INSERT ... SELECT. They take
their read transaction from the request, and the router hands on requests without one. -/
namespace Plomvix.Planner
open Lib Engine Plomvix.Lib.Comp Plomvix.Lib.Fallible

def errWhereRequired : Err := .format "sql engine: UPDATE and DELETE require a WHERE clause" []
def errDeleteAllRequiresConfirmation : Err :=
  .format "sql engine: full-table DELETE requires AllowFullTableDelete opt-in" []
def errUnsupportedWhereExpr : Err := .format "sql engine: unsupported WHERE expression" []
def errMutationLimitExceeded : Err := .format "sql engine: mutation row limit exceeded" []
def errRowNotFound : Err := .format "sql engine: no row found matching predicate" []
def errMissingRowID : Err := .format "engine: row has no physical RowID; cannot mutate" []
def errStaleRowID : Err :=
  .format "sql engine: RowID is stale; heap generation has advanced (vacuum ran)" []
def errHeapMutationUnsupported : Err :=
  .format "sql engine: target table heap does not support mutation" []

/-- `errors.Is(err, planner.ErrUnsupportedFeature)`. -/
def isUnsupportedFeature : Err → Bool
  | .plannerUnsupportedFeature => true
  | .wrap _ e _ => isUnsupportedFeature e
  | _ => false

/-- Of its table expressions those that are plain tables have a name. -/
structure MutationStmt where
  tableExprs : List (Option Bytes)
  where? : Option Expr

inductive DmlStmt
  | update (stmt : MutationStmt) (exprs : List (Bytes × Expr))
  | delete (stmt : MutationStmt) (allowFullTableDelete : Bool)
  /-- The SELECT as it is read back from its text. -/
  | insertSelect (tableName : Bytes) (query : Query)

def extractSingleDMLTableName : List (Option Bytes) → Except Err Bytes
  | [some name] => if name = [] then .error .unsupportedDML else .ok name
  | _ => .error .unsupportedDML

/-- The columns that are set, with their new values; `seen` are the names before. -/
def setByName (lib : GoLib) (columns : List Column) (seen : List Bytes) :
    List (Bytes × Expr) → Except Err (List (ℕ × Datum))
  | [] => .ok []
  | (ident,expr)::rest => do
    let colName := lib.toLower ident
    if colName ∈ seen then .error (.wrap "%w: %q" .duplicateColumn [colName])
    else match (indexByName lib columns colName).bind fun idx => columns[idx]?.map fun col =>
      (idx,col) with
      | none => .error (.wrap "%w: %q" .unknownColumn [colName])
      | some (idx,col) =>
        return (idx,← mapLiteral lib expr col)::(← setByName lib columns (colName::seen) rest)

/-- What a statement reads: the rows of a heap that pass the predicate, in full or projected. -/
structure Source where
  heap : TableHeap
  schema : Schema
  pred : Option BoundExpr
  projections : List ProjectionExpr

/-- What it does with them. -/
inductive Work
  | update (sets : List (ℕ × Datum))
  | delete
  | insert (target : Schema)

def resolveTable (env : Env) (tableName : Bytes) : Except Err (TableInfo × Schema) := do
  let info ← env.getTable tableName
  let engSchema ← (Schema.decode info.schemaPayload).mapError fun err =>
    .wrap "sql engine: decode schema: %w" err []
  return (info,engSchema)

def resolveHeap (env : Env) (info : TableInfo) : Except Err TableHeap :=
  (env.getTableHeap info.tableID).mapError fun err => .wrap "sql engine: get table heap: %w" err []

def bindMutationWhere (lib : GoLib) (engSchema : Schema) : Option Expr → Except Err (Option BoundExpr)
  | none => .ok none
  | some expr =>
    match bindWherePlanner lib (plannerSchemaFromEngineSchema engSchema []) expr with
    | .error err => .error (if isUnsupportedFeature err then errUnsupportedWhereExpr else err)
    | .ok pred => .ok (some pred)

/-- Everything before the source is opened. All heaps that the engine opens can be inserted into and
mutated. -/
def DmlStmt.resolve (lib : GoLib) (env : Env) : DmlStmt → Except Err (Source × Work)
  | .update stmt exprs => do
    if stmt.where? = none then .error errWhereRequired
    else
      let tableName ← extractSingleDMLTableName stmt.tableExprs
      let (info,engSchema) ← resolveTable env tableName
      let sets ← setByName lib engSchema.columns [] exprs
      let heap ← resolveHeap env info
      return (⟨heap,engSchema,← bindMutationWhere lib engSchema stmt.where?,[]⟩,.update sets)
  | .delete stmt allowFullTableDelete => do
    if stmt.where? = none ∧ allowFullTableDelete = false then .error errDeleteAllRequiresConfirmation
    else
      let tableName ← extractSingleDMLTableName stmt.tableExprs
      let (info,engSchema) ← resolveTable env tableName
      let heap ← resolveHeap env info
      return (⟨heap,engSchema,← bindMutationWhere lib engSchema stmt.where?,[]⟩,.delete)
  | .insertSelect tableName query => do
    let (info,engSchema) ← resolveTable env tableName
    let _ ← resolveHeap env info
    let tmpl ← (plan lib env.getTable query).mapError fun err => .wrap "sql engine: plan SELECT: %w" err []
    let heap ← (env.getTableHeap tmpl.tableID).mapError fun err =>
      .wrap "sql engine: source heap: %w" err []
    return (⟨heap,tmpl.inputSchema,tmpl.whereExpr,tmpl.projections⟩,.insert engSchema)

def Source.operator (lib : GoLib) (env : Env) (src : Source) : Operator :=
  let filtered := whereNode lib (seqScanNode src.heap env.decoder src.schema env.tx) src.pred
  if src.projections = [] then filtered else
    projectNode lib filtered src.projections ⟨src.projections.map (·.col)⟩

/-- One row to be changed. -/
structure RowMutation where
  rowID : UInt64
  /-- Without them it is a deletion. -/
  newValues : Option (List Datum)

/-- `DecodeRowID`, of which only the generation is used. -/
def rowGeneration (rowID : UInt64) : Except Err UInt64 :=
  if rowID &&& 0xFFFFFFFF = 0 then .error errMissingRowID else .ok (rowID >>> 32)

/-- The generation that it is compared with is of an adapter made for this call, and so zero. -/
def checkWriteConflicts : List RowMutation → Except Err Unit
  | [] => .ok ()
  | m::mutations => do
    let generation ← rowGeneration m.rowID
    if generation≠0 then .error errStaleRowID else checkWriteConflicts mutations

def batchMutate (mutations : List RowMutation) : Except Err ℕ := do
  checkWriteConflicts mutations
  if mutations = [] then return 0 else .error errHeapMutationUnsupported

def setValues (values : List Datum) : List (ℕ × Datum) → Except Err (List Datum)
  | [] => .ok values
  | (idx,d)::sets => if idx < values.length then setValues (values.set idx d) sets else .error .panic

def rowMutations (newValues : List Datum → Except Err (Option (List Datum))) :
    List Row → Except Err (List RowMutation)
  | [] => .ok []
  | row::matched =>
    if row.rowID = 0 then .error errMissingRowID
    else do return ⟨row.rowID,← newValues row.datums⟩::(← rowMutations newValues matched)

def mutate (verb : String) (newValues : List Datum → Except Err (Option (List Datum)))
    (matched : List Row) : Except Err Result := do
  if matched = [] then .error errRowNotFound
  else
    let rowsAffected ← batchMutate (← rowMutations newValues matched)
    return ⟨none,rowsAffected,ascii verb++decimal rowsAffected⟩

/-- What the stream into the heap of the target answers. -/
structure InsertStream where
  begins : Except Err Unit
  append : ℕ → Row → Except Err Unit
  commit : Except Err Unit

namespace Work
variable (lib : GoLib) (maxMutationRows : ℤ) (stream : InsertStream)

def start : Work → Except Err Unit
  | insert _ => stream.begins
  | _ => .ok ()

/-- The loop over the rows of the source takes in one more. -/
def add : Work → List Row → Row → Except Err (List Row)
  | insert target,rows,row => do
    let targetRow ← coerceRow lib target row
    stream.append rows.length targetRow
    return rows++[row]
  | _,rows,row =>
    if 0 < maxMutationRows ∧ maxMutationRows < rows.length+1 then
      .error errMutationLimitExceeded else .ok (rows++[row])

def finish : Work → List Row → Except Err Result
  | update sets,rows => mutate "UPDATE " (fun values => (setValues values sets).map some) rows
  | delete,rows => mutate "DELETE " (fun _ => .ok none) rows
  | insert _,rows => do
    stream.commit
    return insertResult rows.length

end Work

/-- UPDATE, DELETE and INSERT ... SELECT under the transaction of the request. -/
def DmlStmt.exec (lib : GoLib) (env : Env) (maxMutationRows : ℤ) (stream : InsertStream)
    (stmt : DmlStmt) : Comp (Except Err Result) :=
  match stmt.resolve lib env with
  | .error e => return .error e
  | .ok (src,work) => do
    match ← (src.operator lib env).openNode (src.operator lib env).init with
    | (.error e,_) => return .error e
    | (.ok _,s) =>
      match work.start stream with
      | .error e => return .error e
      | .ok _ =>
        match ← Cursor.fold (src.operator lib env).next (work.add lib maxMutationRows stream) [] s with
        | (.error e,_) => return .error e
        | (.ok rows,_) => return work.finish stream rows

/-- The router leaves the context of the transaction empty, and of it the engine sets the write
transaction. -/
def Env.routed (env : Env) (txm : TxManager) : Env := { env with tx := ⟨0,txm.nextWriteTx.1⟩ }

/-- The heap of a table with the versions that it holds, none of them of the write transaction zero. -/
structure HeapTable where
  table : SQL.Table
  entries : SQL.Entries
  generation : UInt64
  versioned : ∀ row ∈ SQL.tableRows table.toSchema entries, row.version≠0

namespace HeapTable
variable (t : HeapTable)

def rowsAt (readTxID : UInt64) : List (List SQL.Val) :=
  (SQL.scan t.table.toSchema (SQL.newestRows t.table.toSchema t.entries readTxID)).rows.map (·.values)

/-- What all statements before have left: the newest version of every row. -/
def committed : List (List SQL.Val) := t.rowsAt 0xFFFFFFFFFFFFFFFF

def heap : TableHeap := ⟨fun tx => .ok ⟨(t.rowsAt tx.readTxID).mapIdx (scanTuple t.generation),.ok ()⟩⟩

/-- The committed rows that satisfy the WHERE clause. -/
def satisfying (lib : GoLib) (src : Source) : List Row :=
  (t.committed.map fun vals => (⟨(vals.zip src.schema.columns).map fun x =>
    keyValueToDatum x.1 x.2.typ,0⟩ : Row)).filter fun row =>
    match src.pred with
    | none => true
    | some pred => Cursor.passes (holds lib pred row)

end HeapTable

/-- The row of the source that a committed row becomes. -/
def Source.Hands (lib : GoLib) (src : Source) (row committed : Row) : Prop :=
  if src.projections = [] then row.datums = committed.datums else
    projectRow lib src.projections committed = .ok row

section Routed
variable {lib : GoLib} {env : Env} {txm : TxManager} {t : HeapTable} {src : Source}

lemma HeapTable.rowsAt_zero : t.rowsAt 0 = [] := by
  have hnone : (SQL.tableRows t.table.toSchema t.entries).filter (fun row =>
    decide (row.version ≤ 0)) = [] := by
    rw [List.filter_eq_nil_iff]
    intro row hrow
    simpa using t.versioned row hrow
  rw [rowsAt,SQL.newestRows,hnone]
  rfl

lemma versioned_of_reached {table : SQL.Table} {st : SQL.Entries} (h : SQL.Reached table st) :
    ∀ row ∈ SQL.tableRows table.toSchema st, row.version≠0 := by
  intro row hrow
  obtain ⟨pk,-,hx⟩ := SQL.mem_tableRows.mp hrow
  obtain ⟨hread,hmem⟩ := SQL.mem_versionsOf.mp hx
  exact h.sound.versioned hmem (hread _)

lemma whereNode_runs_nil {op : Operator} (h : op.Runs []) (lib : GoLib) (pred : Option BoundExpr) :
    (whereNode lib op pred).Runs [] := by
  cases pred with
  | none => exact h
  | some pred =>
    obtain ⟨s,s',hopen,hs⟩ := h
    exact ⟨s,s',hopen,Cursor.filter_streams hs nofun⟩

variable (lib env txm) in
lemma operator_runs_nil (hheap : src.heap = t.heap) : (src.operator lib (env.routed txm)).Runs [] := by
  have hscan : (seqScanNode src.heap env.decoder src.schema (env.routed txm).tx).Runs [] := by
    refine ⟨some ⟨[],.ok ()⟩,some ⟨[],.ok ()⟩,?_,streams_scan .nil⟩
    have hiter : src.heap.scan (env.routed txm).tx = .ok ⟨[],.ok ()⟩ := by
      rw [hheap]
      change Except.ok (HeapScanIterator.mk ((t.rowsAt 0).mapIdx _) _) = _
      rw [t.rowsAt_zero]
      rfl
    change (seqScanOpen src.heap _ none).Returns _
    rw [seqScanOpen,hiter]
    exact returns_pure.mpr rfl
  have hwhere := whereNode_runs_nil hscan lib src.pred
  rw [Source.operator]
  split_ifs with hproj
  · exact hwhere
  · obtain ⟨s,s',hopen,hs⟩ := hwhere
    exact ⟨s,s',hopen,Cursor.map_streams hs .nil⟩

lemma exec_routed {stmt : DmlStmt} {work : Work} (hresolve : stmt.resolve lib env = .ok (src,work))
    (hheap : src.heap = t.heap)
    (maxMutationRows : ℤ) (stream : InsertStream) :
    (stmt.exec lib (env.routed txm) maxMutationRows stream).Returns
      ((work.start stream).bind fun _ => work.finish stream []) := by
  obtain ⟨s,s',hopen,hs⟩ := operator_runs_nil lib env txm hheap
  have hresolve' : stmt.resolve lib (env.routed txm) = .ok (src,work) := by
    rw [← hresolve]
    cases stmt <;> rfl
  rw [DmlStmt.exec,hresolve']
  refine returns_bind.mpr ⟨_,hopen,?_⟩
  cases hstart : work.start stream with
  | error e => exact returns_pure.mpr rfl
  | ok _ =>
    refine returns_bind.mpr ⟨_,Cursor.fold_returns hs rfl,?_⟩
    exact returns_pure.mpr rfl

end Routed

/-- The rows of the source that the statement goes through. -/
def DmlStmt.WorksOn (lib : GoLib) (env : Env) (stmt : DmlStmt) (rows : List Row) : Prop :=
  ∃ src work, stmt.resolve lib env = .ok (src,work) ∧ (src.operator lib env).Runs rows

/-- A routed statement works on the committed rows that satisfy its WHERE clause only if there is none. -/
theorem works_on_committed_iff (lib : GoLib) (env : Env) (txm : TxManager) (stmt : DmlStmt)
    (src : Source) (work : Work)
    (hresolve : stmt.resolve lib (env.routed txm) = .ok (src,work)) (t : HeapTable)
    (hheap : src.heap = t.heap) :
    (∃ rows, stmt.WorksOn lib (env.routed txm) rows ∧
      List.Forall₂ (src.Hands lib) rows (t.satisfying lib src)) ↔
      t.satisfying lib src = [] := by
  constructor
  · rintro ⟨rows,⟨src',work',hresolve',hrows⟩,hall⟩
    obtain ⟨rfl,-⟩ := Prod.mk.inj (Except.ok.inj (hresolve.symm.trans hresolve'))
    obtain rfl := hrows.unique (operator_runs_nil lib env txm hheap)
    exact List.forall₂_nil_left_iff.mp hall
  · intro hnone
    refine ⟨[],⟨src,work,hresolve,operator_runs_nil lib env txm hheap⟩,?_⟩
    rw [hnone]
    exact .nil

def notesTable : SQL.Table := ⟨heapSchema 1000 notesColumns,by decide +kernel⟩

/-- One note, of the first write transaction. -/
def notesStored : HeapTable where
  table := notesTable
  entries := (SQL.insert notesTable.toSchema SQL.btreeLimits 2 [.int64 1,.string (ascii "x")] []).2
  generation := 0
  versioned := versioned_of_reached ((SQL.Reached.start (SQL.vacant_nil _)).call SQL.btreeLimits
    (.insert 2 [.int64 1,.string (ascii "x")]))

def notesEnv : Env where
  getTable name := if name = ascii "notes" then
    .ok ⟨1000,(createdSchema notesColumns).encode.toOption.getD []⟩ else .error .tableNotFound
  getTableHeap tableID := if tableID = 1000 then .ok notesStored.heap else .error .tableHeapNotFound
  decoder := decodeRow
  tx := ⟨0,0⟩

/-- UPDATE notes SET note = 'y' WHERE id = n -/
def updateNote (n : String) : DmlStmt :=
  .update ⟨[some (ascii "notes")],some (.comparison .equal (.colName [] (ascii "id")) (intLit n))⟩
    [(ascii "note",strLit "y")]

def updateSource (n : Int64) : Source :=
  ⟨notesStored.heap,createdSchema notesColumns,
    some (.cmpExpr (.colRef 0 .int64) (.literalExpr ⟨.int64,.int64 n⟩) .eq),[]⟩

theorem works_on_no_note : ∃ rows, (updateNote "2").WorksOn plainLib (notesEnv.routed ⟨2,2⟩) rows ∧
    List.Forall₂ ((updateSource 2).Hands plainLib) rows
      (notesStored.satisfying plainLib (updateSource 2)) :=
  (works_on_committed_iff plainLib notesEnv ⟨2,
    2⟩ (updateNote "2") (updateSource 2) (.update [(1,⟨.string,.string (ascii "y")⟩)]) rfl
    notesStored rfl).mpr (by decide +kernel)

/-- The note with the ID 1 is committed, and the statement does not find it. -/
theorem committed_note_not_found :
    (updateNote "1").resolve plainLib (notesEnv.routed ⟨2,2⟩) =
      .ok (updateSource 1,.update [(1,⟨.string,.string (ascii "y")⟩)]) ∧
      (updateSource 1).heap = notesStored.heap ∧
      notesStored.satisfying plainLib (updateSource 1) =
        [⟨[⟨.int64,.int64 1⟩,⟨.string,.string (ascii "x")⟩],0⟩] ∧
      (updateNote "1").WorksOn plainLib (notesEnv.routed ⟨2,2⟩) [] ∧
      ∀ maxMutationRows stream, ((updateNote "1").exec plainLib (notesEnv.routed ⟨2,2⟩)
        maxMutationRows stream).Returns (.error errRowNotFound) := by
  have hresolve : (updateNote "1").resolve plainLib notesEnv =
    .ok (updateSource 1,.update [(1,⟨.string,.string (ascii "y")⟩)]) := rfl
  have hheap : (updateSource 1).heap = notesStored.heap := rfl
  exact ⟨rfl,rfl,by decide +kernel,⟨_,_,rfl,operator_runs_nil _ _ _ hheap⟩,exec_routed hresolve hheap⟩

end Plomvix.Planner
