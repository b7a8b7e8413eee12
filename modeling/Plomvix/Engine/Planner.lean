import Plomvix.Engine.Schema
import Plomvix.SQL.Heap

/-! The planner of single-table queries: columns are resolved, expressions are bound to the schema of
the table, and the template that comes out is what the engine runs and keeps. A row stream is the
list of what its `Next` returns up to the end of file. -/
namespace Plomvix.Engine
open Lib

inductive LitType
  | intVal | floatVal | strVal | other
  deriving DecidableEq

/-- A literal as the parser leaves it. -/
structure Literal where
  typ : LitType
  val : Bytes
  deriving DecidableEq

inductive CmpOp
  | equal | lessThan | greaterThan | inOp | other
  deriving DecidableEq

/-- The expressions of the syntax tree; of the items of a tuple the planner reads the literals. -/
inductive Expr
  | comparison (op : CmpOp) (left right : Expr)
  | between (left low high : Expr)
  | andExpr (left right : Expr)
  | orExpr (left right : Expr)
  | colName (qualifier name : Bytes)
  | literal (lit : Literal)
  | nullVal
  | valTuple (items : List (Option Literal))
  | other
  deriving DecidableEq

inductive SelectExpr
  | aliased (expr : Expr) (as : Bytes)
  | other
  deriving DecidableEq

/-- What the planner reads of a statement: the tables and the common table expressions in it, and the
clauses of a SELECT. -/
structure Query where
  tables : List Bytes
  ctes : List Bytes
  select : Option (Option Expr × List SelectExpr)
  deriving DecidableEq

inductive Op
  | eq | less | greater | unknown
  deriving DecidableEq

/-- An expression over the positions of a row. -/
inductive BoundExpr
  | colRef (idx : ℕ) (typ : Typ)
  | literalExpr (d : Datum)
  | cmpExpr (left right : BoundExpr) (op : Op)
  | boolExpr (left right : BoundExpr) (isAnd : Bool)
  | inPredicate (colIdx : ℕ) (values : List Datum)
  | betweenPredicate (colIdx : ℕ) (lo hi : Datum)
  deriving DecidableEq

def datumEqual (lib : GoLib) (a b : Datum) : Except Err Bool :=
  if a.typ≠b.typ then .ok false
  else match a.typ with
    | .int64 => match a.value,b.value with | .int64 x,.int64 y => .ok (x == y) | _,_ => .error .panic
    | .uint64 => match a.value,b.value with | .uint64 x,.uint64 y => .ok (x == y) | _,_ => .error .panic
    | .float64 => match a.value,b.value with
      | .float64 x,.float64 y => .ok (lib.floatEq x y)
      | _,_ => .error .panic
    | .bool => match a.value,b.value with | .bool x,.bool y => .ok (x == y) | _,_ => .error .panic
    | .string => match a.value,b.value with | .string x,.string y => .ok (x == y) | _,_ => .error .panic
    | .bytes => match a.value,b.value with | .bytes x,.bytes y => .ok (x == y) | _,_ => .error .panic
    | _ => .ok false

/-- The assertions go by the type of `a` alone. -/
def datumLess (lib : GoLib) (a b : Datum) : Except Err Bool :=
  match a.typ with
  | .int64 => match a.value,b.value with | .int64 x,.int64 y => .ok (decide (x < y)) | _,_ => .error .panic
  | .uint64 =>
    match a.value,b.value with | .uint64 x,.uint64 y => .ok (decide (x < y)) | _,_ => .error .panic
  | .float64 => match a.value,b.value with
    | .float64 x,.float64 y => .ok (lib.floatLess x y)
    | _,_ => .error .panic
  | .string =>
    match a.value,b.value with | .string x,.string y => .ok (decide (x < y)) | _,_ => .error .panic
  | _ => .ok false

def boolDatum (b : Bool) : Datum := ⟨.bool,.bool b⟩

def anyEqual (lib : GoLib) (val : Datum) : List Datum → Except Err Bool
  | [] => .ok false
  | v::vs => do if ← datumEqual lib val v then return true else anyEqual lib val vs

def BoundExpr.eval (lib : GoLib) : BoundExpr → Row → Except Err Datum
  | .colRef idx _,row =>
    match row.datums[idx]? with
    | none => .error (.format "planner: column index %d out of range" [decimal idx])
    | some d => .ok d
  | .literalExpr d,_ => .ok d
  | .cmpExpr left right op,row => do
    let l ← left.eval lib row
    let r ← right.eval lib row
    let eq ← datumEqual lib l r
    match op with
    | .eq => return boolDatum eq
    | .less => return boolDatum (← datumLess lib l r)
    | .greater => return boolDatum (← datumLess lib r l)
    | .unknown => .error (.format "planner: unsupported op %q" [ascii "?"])
  | .boolExpr left right isAnd,row => do
    match (← left.eval lib row).value with
    | .bool lb =>
      if isAnd && !lb then return boolDatum false
      else if !isAnd && lb then return boolDatum true
      else match (← right.eval lib row).value with
        | .bool rb => return boolDatum (if isAnd then lb && rb else lb || rb)
        | _ => .error (.format "planner: AND/OR requires bool" [])
    | _ => .error (.format "planner: AND/OR requires bool" [])
  | .inPredicate colIdx values,row =>
    match row.datums[colIdx]? with
    | none => .error (.format "planner: IN column index out of range" [])
    | some val => (anyEqual lib val values).map boolDatum
  | .betweenPredicate colIdx lo hi,row =>
    match row.datums[colIdx]? with
    | none => .error (.format "planner: BETWEEN column index out of range" [])
    | some val => do
      let geLo ← if ← datumEqual lib val lo then pure true else datumLess lib lo val
      let leHi ← if ← datumEqual lib val hi then pure true else datumLess lib val hi
      return boolDatum (geLo && leHi)

/-- A column with the alias of its table. -/
structure SchemaField where
  column : Column
  tableAlias : Bytes
  deriving DecidableEq

abbrev PlannerSchema := List SchemaField

def plannerSchemaFromEngineSchema (schema : Schema) (tableAlias : Bytes) : PlannerSchema :=
  schema.columns.map fun col => ⟨col,tableAlias⟩

/-- The one column of the name, in any case. -/
def resolveColumn (lib : GoLib) (ps : PlannerSchema) (qualifier name : Bytes) : Except Err ℕ :=
  if lib.toLower qualifier = [] then
    match ps.findIdxs fun f => lib.toLower f.column.name = lib.toLower name with
    | [] => .error .columnNotFound
    | [idx] => .ok idx
    | _ => .error .ambiguousColumn
  else
    match ps.findIdx? fun f => lib.toLower f.tableAlias =
      lib.toLower qualifier && lib.toLower f.column.name = lib.toLower name with
    | none => .error .columnNotFound
    | some idx => .ok idx

def digitsVal (b : Bytes) : ℕ := b.foldl (fun n c => n*10+(c.toNat-48)) 0

def splitSign : Bytes → Bool × Bytes
  | 45::rest => (true,rest)
  | 43::rest => (false,rest)
  | b => (false,b)

def signed (negative : Bool) (n : ℕ) : Option Int64 :=
  if negative then if n ≤ 2^63 then some (Int64.ofInt (-n)) else none
  else if n < 2^63 then some (Int64.ofNat n) else none

/-- `strconv.ParseInt(s, 10, 64)`. -/
def parseInt (s : Bytes) : Option Int64 :=
  let (negative,digits) := splitSign s
  if digits = [] ∨ digits.any (!isDigit ·) then none else signed negative (digitsVal digits)

/-- `Sscanf` with `%d` takes the digits in front. -/
def parseIntOrZero (s : Bytes) : Int64 :=
  let (negative,rest) := splitSign (s.dropWhile (· = 32))
  match rest.takeWhile isDigit with
  | [] => 0
  | digits => (signed negative (digitsVal digits)).getD 0

def literalToDatum (lib : GoLib) (lit : Literal) : Datum :=
  match lit.typ with
  | .intVal => ⟨.int64,.int64 (parseIntOrZero lit.val)⟩
  | .floatVal => ⟨.float64,.float64 (lib.scanFloat lit.val)⟩
  | .strVal => ⟨.string,.string lit.val⟩
  | .other => ⟨.null,.nil⟩

def bindLiteral (lib : GoLib) (lit : Literal) : Except Err BoundExpr :=
  match lit.typ with
  | .other => .error (.wrap "%w: unsupported literal type" .plannerUnsupportedFeature [])
  | _ => .ok (.literalExpr (literalToDatum lib lit))

def comparisonOp : CmpOp → Op
  | .equal => .eq
  | .lessThan => .less
  | .greaterThan => .greater
  | _ => .unknown

def bindColumn (lib : GoLib) (ps : PlannerSchema) (qualifier name : Bytes) : Except Err ℕ :=
  (resolveColumn lib ps qualifier name).mapError fun e => .wrap "planner: %w: %q" e [name]

def tupleLiterals : List (Option Literal) → Except Err (List Literal)
  | [] => .ok []
  | none::_ => .error (.wrap "%w: IN values must be literals" .plannerUnsupportedFeature [])
  | some lit::items => do return lit::(← tupleLiterals items)

def bindInPredicate (lib : GoLib) (ps : PlannerSchema) : Expr → Expr → Except Err BoundExpr
  | .colName qualifier name,right => do
    let idx ← bindColumn lib ps qualifier name
    match right with
    | .valTuple items => return .inPredicate idx ((← tupleLiterals items).map (literalToDatum lib))
    | _ => .error (.wrap "%w: IN requires literal tuple" .plannerUnsupportedFeature [])
  | _,_ => .error (.wrap "%w: IN requires column reference" .plannerUnsupportedFeature [])

def bindBetweenPredicate (lib : GoLib) (ps : PlannerSchema) : Expr → Expr → Expr → Except Err BoundExpr
  | .colName qualifier name,low,high => do
    let idx ← bindColumn lib ps qualifier name
    match low,high with
    | .literal lo,.literal hi =>
      return .betweenPredicate idx (literalToDatum lib lo) (literalToDatum lib hi)
    | _,_ => .error (.wrap "%w: BETWEEN requires literal bounds" .plannerUnsupportedFeature [])
  | _,_,_ => .error (.wrap "%w: BETWEEN requires column reference" .plannerUnsupportedFeature [])

def bindWherePlanner (lib : GoLib) (ps : PlannerSchema) : Expr → Except Err BoundExpr
  | .comparison .inOp left right => bindInPredicate lib ps left right
  | .comparison op left right => do
    return .cmpExpr (← bindWherePlanner lib ps left) (← bindWherePlanner lib ps right) (comparisonOp op)
  | .between left low high => bindBetweenPredicate lib ps left low high
  | .andExpr left right => do
    return .boolExpr (← bindWherePlanner lib ps left) (← bindWherePlanner lib ps right) true
  | .orExpr left right => do
    return .boolExpr (← bindWherePlanner lib ps left) (← bindWherePlanner lib ps right) false
  | .colName qualifier name => do
    let idx ← bindColumn lib ps qualifier name
    return .colRef idx ((ps[idx]?.map fun f => f.column.typ).getD .null)
  | .literal lit => bindLiteral lib lit
  | _ => .error (.wrap "%w: expression type %T" .plannerUnsupportedFeature [])

/-- An output column and its expression. -/
structure ProjectionExpr where
  expr : BoundExpr
  col : Column
  deriving DecidableEq

def bindProjection (lib : GoLib) (ps : PlannerSchema) : SelectExpr → Except Err ProjectionExpr
  | .other => .error (.wrap "%w: non-aliased select expr" .plannerUnsupportedFeature [])
  | .aliased expr as => do
    let bound ← bindWherePlanner lib ps expr
    let colName := if as = [] then match expr with | .colName _ name => name | _ => ascii "?" else as
    let colType := match bound with | .colRef _ typ => typ | _ => .string
    return ⟨bound,⟨colName,colType,false,none⟩⟩

def bindProjections (lib : GoLib) (ps : PlannerSchema) : List SelectExpr → Except Err (List ProjectionExpr)
  | [] => .ok []
  | expr::exprs => do return (← bindProjection lib ps expr)::(← bindProjections lib ps exprs)

/-- A bound query, as the plan cache keeps it. -/
structure PlanTemplate where
  tableID : UInt64
  inputSchema : Schema
  outputSchema : Schema
  whereExpr : Option BoundExpr
  projections : List ProjectionExpr
  deriving DecidableEq

def afterLastDot (name : Bytes) : Bytes := (name.reverse.takeWhile (·≠46)).reverse

def targetTables (lib : GoLib) (q : Query) : List Bytes :=
  let names := q.tables.map fun t => afterLastDot (lib.toLower t)
  (names.filter fun name => !(q.ctes.map lib.toLower).contains name && name≠ascii "dual").foldl
    (fun result name => if result.contains name then result else result++[name]) []

/-- What the planner asks of a table of the catalog. -/
structure TableInfo where
  tableID : UInt64
  schemaPayload : Bytes
  deriving DecidableEq

/-- `getTable` is the catalog's; only its tables are read. -/
def plan (lib : GoLib) (getTable : Bytes → Except Err TableInfo) (q : Query) : Except Err PlanTemplate :=
  match targetTables lib q with
  | [] => .error (.wrap "planner: %w" .plannerUnsupportedFeature [])
  | [tableName] => do
    let info ← getTable tableName
    let engSchema ← Schema.decode info.schemaPayload
    let ps := plannerSchemaFromEngineSchema engSchema []
    match q.select with
    | none => return ⟨info.tableID,engSchema,engSchema,none,[]⟩
    | some (none,exprs) =>
      let projs ← bindProjections lib ps exprs
      return ⟨info.tableID,engSchema,⟨projs.map (·.col)⟩,none,projs⟩
    | some (some expr,exprs) =>
      let pred ← bindWherePlanner lib ps expr
      let projs ← bindProjections lib ps exprs
      return ⟨info.tableID,engSchema,⟨projs.map (·.col)⟩,some pred,projs⟩
  | _ => .error .plannerUnsupportedFeature

abbrev Stream := List (Except Err Row)

def encodeRowToBytes (vals : List SQL.Val) : Except Err Bytes :=
  if vals = [] then .ok []
  else (SQL.encodeStorageComposite vals).mapError fun e => .wrap "sql: encode row: %w" (.heap e) []

def engineTypeToKeyKind : Typ → SQL.Kind
  | .int64 => .int64
  | .uint64 => .uint64
  | .string => .string
  | _ => .bytes

def keyValueToDatum (v : SQL.Val) (t : Typ) : Datum :=
  match t,v with
  | .int64,.int64 i => ⟨t,.int64 i⟩
  | .int64,.uint64 n => ⟨t,.int64 n.toInt64⟩
  | .uint64,.uint64 n => ⟨t,.uint64 n⟩
  | .string,.string s => ⟨t,.string s⟩
  | .bytes,.bytes b => ⟨t,.bytes b⟩
  | _,_ => ⟨.null,.nil⟩

/-- The row without its ID. -/
def decodeRow (encodedTuple : Bytes) (schema : Schema) : Except Err (List Datum) :=
  if encodedTuple = [] then .ok []
  else do
    let k ← (SQL.parseStorageCompositeKey encodedTuple (schema.columns.map fun col =>
      engineTypeToKeyKind col.typ)).mapError
      fun e => .wrap "sql: decode row: %w" (.heap e) []
    let rawVals ← (SQL.decodeStorageComposite k).mapError fun e => .wrap "sql: decode row: %w" (.heap e) []
    return (rawVals.zip schema.columns).map fun x => keyValueToDatum x.1 x.2.typ

/-- What the heap's own iterator yields. The groups come sorted, so the order of the map does not show. -/
def heapRows (schema : SQL.Schema) (st : SQL.Entries) (readTx : UInt64) : List (List SQL.Val) :=
  let rows := SQL.scan schema (SQL.newestRows schema st readTx)
  (rows.collect rows.rows.length).filterMap id

/-- One `Next` of the scan: the tuple of the heap is encoded again and decoded under the engine's
schema. -/
def scanRow (schema : Schema) (generation : UInt64) (counter : ℕ) (vals : List SQL.Val) :
    Except Err Row := do
  let rowID ← encodeRowID generation (UInt64.ofNat counter)
  let encoded ← encodeRowToBytes vals
  return ⟨← decodeRow encoded schema,rowID⟩

def seqScan (schema : Schema) (generation : UInt64) (tuples : List (List SQL.Val)) : Stream :=
  tuples.mapIdx fun counter vals => scanRow schema generation counter vals

/-- Rows on which the predicate is not true are skipped; an error is returned in place of its row. -/
def filterNode (lib : GoLib) (pred : BoundExpr) (child : Stream) : Stream :=
  child.filterMap fun next =>
    match next with
    | .error e => some (.error e)
    | .ok row =>
      match pred.eval lib row with
      | .error e => some (.error e)
      | .ok d => if d.value = .bool true then some (.ok row) else none

def projectRow (lib : GoLib) (exprs : List ProjectionExpr) (row : Row) : Except Err Row := do
  return ⟨← exprs.mapM fun pe => pe.expr.eval lib row,0⟩

def projectNode (lib : GoLib) (exprs : List ProjectionExpr) (child : Stream) : Stream :=
  child.map fun next => next.bind (projectRow lib exprs)

def PlanTemplate.build (lib : GoLib) (t : PlanTemplate) (generation : UInt64)
    (tuples : List (List SQL.Val)) : Stream :=
  let scanned := seqScan t.inputSchema generation tuples
  let filtered := match t.whereExpr with
    | none => scanned
    | some pred => filterNode lib pred scanned
  if t.projections = [] then filtered else projectNode lib t.projections filtered

end Plomvix.Engine
